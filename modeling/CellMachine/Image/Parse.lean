import CellMachine.Text.Fields
import CellMachine.Text.Layout
import CellMachine.Text.Numeral

/-!
# Program texts

A program is written as integers separated by commas. Blanks (space, tab, carriage return and
newline) may stand around each integer; an integer is an optional sign directly followed by ASCII
digits. `Image.parse` reads such a text whole.

A text that is none has one place where reading gave up:

* if it does not begin with an integer, its first character that is no blank;
* else the first character that is no blank after the last integer that could be read. A comma
  with no integer behind it is not read either.

Places are counted in the text with its tabs expanded.

The integers in a text may have any number of digits. Under a digit limit the first integer that
reading comes to and that has too many ends it, before anything that is wrong behind it is seen
(`Image.overlong?`).
-/

namespace CellMachine

/-- The integers a machine's cells start with. -/
abbrev Image := List Int

namespace Image

/-- What stands between two integers. -/
def separator : Char := ','

/-- May this character stand around an integer? -/
def isBlank (c : Char) : Bool := c == ' ' || c == '\t' || c == '\n' || c == '\r'

/-- A text without its leading blanks. -/
def skipBlanks (s : List Char) : List Char := s.dropWhile isBlank

/-- Reads an integer at the start of a text; the rest follows. -/
def value? (s : List Char) : Option (Int × List Char) :=
  let (negative, body) := Text.splitSign s
  let digits := body.takeWhile Char.isDigit
  if digits = [] then none
  else some (Text.signed negative (Nat.ofDigitChars 10 digits 0), body.dropWhile Char.isDigit)

/-- Reads a comma and an integer, blanks around the comma. -/
def item? (s : List Char) : Option (Int × List Char) :=
  match skipBlanks s with
  | c :: rest => if c = separator then value? (skipBlanks rest) else none
  | [] => none

theorem length_skipBlanks_le (s : List Char) : (skipBlanks s).length ≤ s.length :=
  (List.dropWhile_sublist isBlank).length_le

theorem length_splitSign_le (s : List Char) : (Text.splitSign s).2.length ≤ s.length := by
  unfold Text.splitSign
  split <;> simp

theorem length_of_value? {s rest : List Char} {v : Int} (h : value? s = some (v, rest)) :
    rest.length ≤ s.length := by
  simp only [value?, Option.ite_none_left_eq_some, Option.some.injEq, Prod.mk.injEq] at h
  rw [← h.2.2]
  exact Nat.le_trans (List.dropWhile_sublist _).length_le (length_splitSign_le s)

theorem length_of_item? {s rest : List Char} {v : Int} (h : item? s = some (v, rest)) :
    rest.length < s.length := by
  unfold item? at h
  split at h
  · rename_i c tail htail
    rw [Option.ite_none_right_eq_some] at h
    have h1 := length_of_value? h.2
    have h2 := length_skipBlanks_le tail
    have h3 := length_skipBlanks_le s
    rw [htail] at h3
    simp only [List.length_cons] at h3
    omega
  · simp at h

/-- Reads as many commas and integers as there are; the rest follows. -/
def items (s : List Char) : List Int × List Char :=
  match _h : item? s with
  | none => ([], s)
  | some (v, rest) =>
    let (values, last) := items rest
    (v :: values, last)
termination_by s.length
decreasing_by exact length_of_item? _h

/-- What a text should have held at the place where reading gave up. -/
inductive Expected where
  /-- An integer. -/
  | value
  /-- Nothing more. -/
  | endOfText
  deriving DecidableEq, Repr

/-- A text that is no program. -/
structure Malformed where
  /-- What was expected. -/
  expected : Expected
  /-- Where. -/
  position : Text.Position
  deriving DecidableEq, Repr

/-- Reads a program text whose tabs are expanded. -/
def parseExpanded (s : List Char) : Except Malformed Image :=
  match value? (skipBlanks s) with
  | none => .error ⟨.value, .ofRest s (skipBlanks s)⟩
  | some (v, rest) =>
    let (values, rest) := items rest
    match skipBlanks rest with
    | [] => .ok (v :: values)
    | stop => .error ⟨.endOfText, .ofRest s stop⟩

/-- Reads a program text. -/
def parse (text : String) : Except Malformed Image := parseExpanded (Text.expandTabs text.toList)

/-- The part of a text that is read before reading gives up, up to its last integer. -/
def listing (s : List Char) : List Char :=
  match value? (skipBlanks s) with
  | none => []
  | some (_, rest) => s.take (s.length - (items rest).2.length)

/-- How many digits stand between any two commas. -/
def digitCounts (s : List Char) : List Nat :=
  (Text.fields separator s).map fun field => field.countP Char.isDigit

/-- The number of digits of the first integer that reading comes to and that is not read. -/
def overlong? (limit : DigitLimit) (text : String) : Option Nat :=
  (digitCounts (listing (Text.expandTabs text.toList))).find? fun digits => !limit.reads digits

/-- The wording of what was expected. -/
def Expected.text : Expected → String
  | .value => "Expected Re:('[+-]?[0-9]+')"
  | .endOfText => "Expected end of text"

/-- The wording for a text that is no program. -/
def Malformed.message (m : Malformed) : String :=
  s!"Malformed program at line {m.position.line}, column {m.position.column}: " ++ m.expected.text

end Image

end CellMachine
