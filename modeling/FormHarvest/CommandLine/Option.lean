import FormHarvest.Text.Digit
import FormHarvest.Text.Quoted

namespace FormHarvest

/-- What is wrong with the words of a command line. Options are named as they are declared. -/
inductive UsageFault where
  | expectedValue (names : List String)
  | ignoredValue (names : List String) (value : String)
  | invalidChoice (names : List String) (value : String) (choices : List String)
  | ambiguous (word : String) (names : List String)
  | unrecognized (words : List String)
deriving DecidableEq

/-- What is said about words that are wrong. -/
def UsageFault.message : UsageFault → String
  | expectedValue names => about names "expected one argument"
  | ignoredValue names value => about names s!"ignored explicit argument {quoted value}"
  | invalidChoice names value choices =>
    let listed := String.intercalate ", " (choices.map quoted)
    about names s!"invalid choice: {quoted value} (choose from {listed})"
  | ambiguous word names =>
    let listed := String.intercalate ", " names
    s!"ambiguous option: {word} could match {listed}"
  | unrecognized words => "unrecognized arguments: " ++ String.intercalate " " words
where
  about (names : List String) (said : String) : String :=
    let listed := String.intercalate "/" names
    s!"argument {listed}: {said}"

/-- What an option does: it gives an answer in place of the command, it changes what is asked for, or
it does so with a value, which may have to be one of a few. A change is told the name under which
the option was written. -/
inductive OptionEffect (State : Type) where
  | answer (text : String)
  | change (apply : String → State → State)
  | take (choices : List String) (apply : String → State → State)

/-- An option of a command with all its names. -/
structure CommandOption (State : Type) where
  names : List String
  effect : OptionEffect State

def CommandOption.takesValue {State : Type} (option : CommandOption State) : Bool :=
  match option.effect with
  | .take _ _ => true
  | _ => false

/-- A value that stands in one word with its option: after an equals sign, or right behind the letter
of the option. -/
inductive JoinedValue where
  | absent
  | afterEquals (value : List Char)
  | attached (value : List Char)
deriving DecidableEq

/-- What a word is. An option is told with the name that the word stands for. -/
inductive WordRole (State : Type) where
  | operand
  | endOfOptions
  | option (option : CommandOption State) (name : String) (value : JoinedValue)
  | unknownOption

/-- A word of a command line. -/
structure CommandWord (State : Type) where
  text : String
  role : WordRole State

namespace CommandWord

/-- Whether a word looks like a number below zero, a line end behind it aside. -/
def isNegativeNumber (word : List Char) : Bool :=
  match word with
  | '-' :: number =>
    let number := if number.getLast? = some '\n' then number.dropLast else number
    let whole := number.takeWhile isDecimal
    match number.dropWhile isDecimal with
    | [] => !whole.isEmpty
    | '.' :: fraction => !fraction.isEmpty && fraction.all isDecimal
    | _ => false
  | _ => false

section

variable {State : Type} (options : List (CommandOption State))

/-- All names of options in the order in which they are declared. -/
def declaredNames : List (String × CommandOption State) :=
  options.flatMap fun option => option.names.map fun name => (name, option)

/-- The option of a name. -/
def find? (name : List Char) : Option (String × CommandOption State) :=
  (declaredNames options).find? fun known => known.1.toList == name

/-- A word split at its first equals sign. -/
def splitAtEquals (word : List Char) : List Char × JoinedValue :=
  match word.dropWhile (· != '=') with
  | [] => (word, .absent)
  | _ :: value => (word.takeWhile (· != '='), .afterEquals value)

/-- The options that a word may stand for without being a name of one: a beginning of a long name, or
a letter with its value behind it. -/
def candidates (word : List Char) : List (WordRole State) :=
  match word with
  | '-' :: '-' :: _ =>
    let (beginning, value) := splitAtEquals word
    (declaredNames options).filterMap fun (name, option) =>
      if beginning.isPrefixOf name.toList then some (.option option name value) else none
  | _ =>
    (declaredNames options).filterMap fun (name, option) =>
      if name.toList == word.take 2 then some (.option option name (.attached (word.drop 2)))
      else if word.isPrefixOf name.toList then some (.option option name .absent)
      else none

/-- The name that a role tells of. -/
def roleName? : WordRole State → Option String
  | .option _ name _ => some name
  | _ => none

/-- What a word is on its own. A word with a dash at its start is an option, unless it is the dash
alone, a number, or no known option and has a blank. -/
def roleOf (text : String) : Except UsageFault (WordRole State) :=
  let word := text.toList
  if word.head? != some '-' then .ok .operand
  else
    match find? options word, word with
    | some (name, option), _ => .ok (.option option name .absent)
    | none, [_] => .ok .operand
    | none, _ =>
      let (beginning, value) := splitAtEquals word
      match find? options beginning with
      | some (name, option) => .ok (.option option name value)
      | none =>
        match candidates options word with
        | [role] => .ok role
        | [] => .ok (if isNegativeNumber word || word.contains ' ' then .operand else .unknownOption)
        | several => .error (.ambiguous text (several.filterMap roleName?))

/-- All words of a command line. Behind two dashes there are no options. -/
def ofTexts : List String → Except UsageFault (List (CommandWord State))
  | [] => .ok []
  | text :: rest =>
    if text = "--" then .ok (⟨text, .endOfOptions⟩ :: rest.map (⟨·, .operand⟩))
    else do
      let role ← roleOf options text
      return ⟨text, role⟩ :: (← ofTexts rest)

end

def isOperand {State : Type} (word : CommandWord State) : Bool :=
  match word.role with
  | .operand | .endOfOptions => true
  | _ => false

end CommandWord

end FormHarvest
