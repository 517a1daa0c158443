namespace FormHarvest

/-- A part of a pattern for names: any characters, or one character of a kind. A class lists ranges
of characters. -/
inductive GlobPart where
  | star
  | anyOne
  | exactly (c : Char)
  | oneOf (negated : Bool) (ranges : List (Char × Char))
  | impossible
deriving DecidableEq

namespace GlobPart

/-- Whether a part takes one character; a star is no such part. -/
def accepts : GlobPart → Char → Bool
  | star, _ => false
  | anyOne, _ => true
  | exactly c, d => c == d
  | oneOf negated ranges, d => ranges.any (fun (low, high) => low ≤ d && d ≤ high) != negated
  | impossible, _ => false

end GlobPart

namespace Glob

/-- Cuts the inside of a class at the hyphens that make ranges. A hyphen at the start, and one
directly after the end of a range, stands for itself. `held` characters must pass before the next
hyphen counts. -/
def chunksFrom (read : List Char) : (held : Nat) → List Char → List (List Char)
  | _, [] => [read.reverse]
  | 0, c :: rest =>
    if c == '-' then read.reverse :: chunksFrom [] 2 rest else chunksFrom (c :: read) 0 rest
  | held + 1, c :: rest => chunksFrom (c :: read) held rest

/-- The chunks with a hyphen at the end of the inside counted as a character. -/
def closedChunks (chunks : List (List Char)) : List (List Char) :=
  match chunks.reverse with
  | [] :: last :: rest => ((last ++ ['-']) :: rest).reverse
  | _ => chunks

/-- The chunks without ranges that hold nothing, which take their two ends along. -/
def joinEmptyRanges : List (List Char) → List (List Char)
  | [] => []
  | chunk :: rest =>
    match joinEmptyRanges rest with
    | [] => [chunk]
    | next :: more =>
      match chunk.getLast?, next.head? with
      | some low, some high =>
        if high < low then (chunk.dropLast ++ next.drop 1) :: more else chunk :: next :: more
      | _, _ => chunk :: next :: more

/-- A sign inside a class: a character for itself, or the hyphen of a range. -/
inductive ClassSign where
  | plain (c : Char)
  | hyphen
deriving DecidableEq

def ClassSign.char : ClassSign → Char
  | plain c => c
  | hyphen => '-'

/-- The signs of chunks, with the hyphens between them. -/
def signsOf : List (List Char) → List ClassSign
  | [] => []
  | [chunk] => chunk.map .plain
  | chunk :: rest => chunk.map .plain ++ .hyphen :: signsOf rest

/-- The ranges that signs stand for. -/
def rangesOf : List ClassSign → List (Char × Char)
  | low :: .hyphen :: high :: rest => (low.char, high.char) :: rangesOf rest
  | sign :: rest => (sign.char, sign.char) :: rangesOf rest
  | [] => []

/-- The class with the given inside. An exclamation mark at the start takes the opposite; alone it
takes every character. -/
def classOf (inside : List Char) : GlobPart :=
  let chunks :=
    if inside.contains '-' then
      joinEmptyRanges (closedChunks (chunksFrom [] (if inside.head? == some '!' then 2 else 1) inside))
    else [inside]
  match signsOf chunks with
  | [] => .impossible
  | [.plain '!'] => .anyOne
  | .plain '!' :: rest => .oneOf true (rangesOf rest)
  | signs => .oneOf false (rangesOf signs)

/-- The inside of a class and what follows its closing bracket, given the text behind the opening
one; none when nothing closes it. A bracket directly at the start of the inside belongs to it. -/
def classAt? (text : List Char) : Option (List Char × List Char) :=
  let lead :=
    match text with
    | '!' :: ']' :: _ => 2
    | '!' :: _ => 1
    | ']' :: _ => 1
    | _ => 0
  let inside := text.take lead ++ (text.drop lead).takeWhile (· != ']')
  match text.drop inside.length with
  | [] => none
  | _ :: rest => some (inside, rest)

theorem length_of_classAt? {text inside rest : List Char}
    (found : classAt? text = some (inside, rest)) : rest.length < text.length := by
  unfold classAt? at found
  simp only at found
  split at found
  · simp at found
  · rename_i c tail eq
    simp only [Option.some.injEq, Prod.mk.injEq] at found
    obtain ⟨-, rfl⟩ := found
    have := congrArg List.length eq
    simp only [List.length_drop, List.length_cons] at this
    omega

/-- The parts of a pattern. A bracket that nothing closes stands for itself. -/
def parts (pattern : List Char) : List GlobPart :=
  match pattern with
  | [] => []
  | '*' :: rest => .star :: parts rest
  | '?' :: rest => .anyOne :: parts rest
  | '[' :: rest =>
    match _found : classAt? rest with
    | some (inside, after) => classOf inside :: parts after
    | none => .exactly '[' :: parts rest
  | c :: rest => .exactly c :: parts rest
termination_by pattern.length
decreasing_by
  · simp
  · simp
  · have := length_of_classAt? _found
    simp only [List.length_cons]
    omega
  · simp
  · simp

/-- The runs of parts between the stars of a pattern. -/
def runs : List GlobPart → List (List GlobPart)
  | [] => [[]]
  | .star :: rest => [] :: runs rest
  | part :: rest =>
    match runs rest with
    | [] => [[part]]
    | run :: others => (part :: run) :: others

/-- What is left of a name behind a run that its start matches. -/
def afterRun? : List GlobPart → List Char → Option (List Char)
  | [], name => some name
  | _ :: _, [] => none
  | part :: run, c :: name => if part.accepts c then afterRun? run name else none

/-- What is left of a name behind the first place that matches a run. -/
def afterFirst? (run : List GlobPart) : List Char → Option (List Char)
  | [] => afterRun? run []
  | c :: name => (afterRun? run (c :: name)).or (afterFirst? run name)

/-- Whether a name matches runs with a star before each of them. -/
def matchesStarred : List (List GlobPart) → List Char → Bool
  | [], _ => true
  | [last], name =>
    last.length ≤ name.length && afterRun? last (name.drop (name.length - last.length)) == some []
  | run :: rest, name =>
    match afterFirst? run name with
    | some left => matchesStarred rest left
    | none => false

/-- Whether a whole name matches a pattern. -/
def accepts (pattern name : String) : Bool :=
  match runs (parts pattern.toList) with
  | [] => name.isEmpty
  | [only] => afterRun? only name.toList == some []
  | first :: rest =>
    match afterRun? first name.toList with
    | some left => matchesStarred rest left
    | none => false

end Glob

end FormHarvest
