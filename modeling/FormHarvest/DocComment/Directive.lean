namespace FormHarvest

/-- What a doc comment says about the message after it: that it is none, what it says in the source
language, what it is about, or how it reads in another language. -/
inductive Directive where
  | ignore
  | desc (text : String)
  | meaning (text : String)
  | altTrans (text locale : String)
deriving DecidableEq

end FormHarvest
