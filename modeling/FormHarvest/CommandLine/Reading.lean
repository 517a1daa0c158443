import FormHarvest.CommandLine.Option

namespace FormHarvest

/-- What ends the reading of a command line early: wrong words, or an option that answers. -/
inductive ReadingEnd where
  | misuse (fault : UsageFault)
  | answer (text : String)
deriving DecidableEq

/-- How a command takes words that are no options: once as many as stand together, or the first one
and all words behind it. -/
inductive OperandRule where
  | together
  | commandAndRest
deriving DecidableEq

/-- An option as it was written: the name and the value, which is empty if there is none. -/
structure OptionUse (State : Type) where
  option : CommandOption State
  name : String
  value : String := ""

/-- The options that one word stands for, a part that is none, and whether the next word is the value
of the last option. -/
structure TakenOptions (State : Type) where
  uses : List (OptionUse State)
  unknown : List String := []
  usesNext : Bool := false

namespace TakenOptions

variable {State : Type}

/-- An option without a value in the same word. -/
def alone (option : CommandOption State) (name : String) (next : Option (CommandWord State)) :
    Except UsageFault (TakenOptions State) :=
  if option.takesValue then
    match next with
    | some ⟨value, .operand⟩ => .ok { uses := [⟨option, name, value⟩], usesNext := true }
    | _ => .error (.expectedValue option.names)
  else .ok { uses := [{ option, name }] }

def after (taken : TakenOptions State) (use : OptionUse State) : TakenOptions State :=
  { taken with uses := use :: taken.uses }

/-- An option with more in the same word. Behind the letter of an option that takes no value there
may be the letter of another one. -/
def joined (options : List (CommandOption State)) (option : CommandOption State) (name : String)
    (afterEquals : Bool) (text : List Char) (next : Option (CommandWord State)) :
    Except UsageFault (TakenOptions State) :=
  if option.takesValue then .ok { uses := [⟨option, name, String.ofList text⟩] }
  else
    match text with
    | [] => .error (.ignoredValue option.names "")
    | letter :: more =>
      if name.toList[1]? = some '-' || afterEquals || letter == '-' then
        .error (.ignoredValue option.names (String.ofList text))
      else
        let use : OptionUse State := { option, name }
        match CommandWord.find? options ['-', letter] with
        | none => .ok { uses := [use], unknown := [String.ofList ('-' :: text)] }
        | some (name, option) =>
          match more with
          | [] => (alone option name next).map (·.after use)
          | '=' :: value => (joined options option name true value next).map (·.after use)
          | more => (joined options option name false more next).map (·.after use)
termination_by text.length
decreasing_by all_goals simp only [List.length_cons]; omega

/-- The options that a word with an option stands for. -/
def ofWord (options : List (CommandOption State)) (option : CommandOption State) (name : String)
    (value : JoinedValue) (next : Option (CommandWord State)) :
    Except UsageFault (TakenOptions State) :=
  match value with
  | .absent => alone option name next
  | .afterEquals text => joined options option name true text next
  | .attached text => joined options option name false text next

end TakenOptions

/-- Does what an option says. -/
def OptionUse.apply {State : Type} (state : State) (use : OptionUse State) : Except ReadingEnd State :=
  match use.option.effect with
  | .answer text => .error (.answer text)
  | .change change => .ok (change use.name state)
  | .take choices change =>
    if choices.isEmpty || choices.contains use.value then .ok (change use.value state)
    else .error (.misuse (.invalidChoice use.option.names use.value choices))

/-- A command that can be read: its options, and how it takes other words. -/
structure CommandGrammar (State : Type) where
  options : List (CommandOption State)
  rule : OperandRule
  takeOperands : List String → State → State

namespace CommandGrammar

variable {State : Type}

/-- Reads words, given whether operands were taken before: what is asked for, and the words that
nothing is known about. -/
def readWords (grammar : CommandGrammar State) (hasOperands : Bool) (state : State)
    (words : List (CommandWord State)) : Except ReadingEnd (State × List String) :=
  match words with
  | [] => .ok (state, [])
  | word :: rest =>
    match word.role with
    | .unknownOption => do
      let (state, unknown) ← grammar.readWords hasOperands state rest
      return (state, word.text :: unknown)
    | .option option name value =>
      match TakenOptions.ofWord grammar.options option name value rest.head? with
      | .error fault => .error (.misuse fault)
      | .ok taken => do
        let state ← taken.uses.foldlM OptionUse.apply state
        let (state, unknown) ←
          grammar.readWords hasOperands state (rest.drop (if taken.usesNext then 1 else 0))
        return (state, taken.unknown ++ unknown)
    | _ =>
      match grammar.rule with
      | .commandAndRest =>
        let texts := (word :: rest).map (·.text)
        if texts = ["--"] then .ok (state, texts) else .ok (grammar.takeOperands texts state, [])
      | .together =>
        let texts := (word :: rest.takeWhile CommandWord.isOperand).map (·.text)
        let others := rest.dropWhile CommandWord.isOperand
        if hasOperands then do
          let (state, unknown) ← grammar.readWords true state others
          return (state, texts ++ unknown)
        else grammar.readWords true (grammar.takeOperands (texts.erase "--") state) others
termination_by words.length
decreasing_by
  all_goals simp only [List.length_cons, List.length_drop]
  · omega
  · omega
  all_goals
    have := (List.dropWhile_sublist CommandWord.isOperand (l := rest)).length_le
    omega

/-- Reads a command line. Words that could stand for several options are wrong before anything is
done. -/
def read (grammar : CommandGrammar State) (state : State) (texts : List String) :
    Except ReadingEnd (State × List String) :=
  match CommandWord.ofTexts grammar.options texts with
  | .error fault => .error (.misuse fault)
  | .ok words => grammar.readWords false state words

end CommandGrammar

end FormHarvest
