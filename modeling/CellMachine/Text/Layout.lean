/-!
# Lines, columns and tabs

Two changes of layout that reading a program applies, and the position of a character.

* `unifyNewlines` turns each line end, be it `\r\n`, `\r` or `\n`, into `\n`.
* `expandTabs` replaces each tab by spaces up to the next multiple of eight columns. Columns start
  anew after `\n` and after `\r`.
* `Position.ofRest` is where the rest of a text begins: lines end at `\n`, and lines and columns
  count from one.
-/

namespace CellMachine.Text

/-- Every line end written as a newline. -/
def unifyNewlines : List Char → List Char
  | '\r' :: '\n' :: rest => '\n' :: unifyNewlines rest
  | '\r' :: rest => '\n' :: unifyNewlines rest
  | c :: rest => c :: unifyNewlines rest
  | [] => []

/-- A text without carriage returns keeps its line ends. -/
theorem unifyNewlines_of_no_return {s : List Char} (h : '\r' ∉ s) : unifyNewlines s = s := by
  fun_induction unifyNewlines s with
  | case1 | case2 => exact absurd (by simp) h
  | case3 c rest _ _ ih => rw [ih fun hmem => h (List.mem_cons_of_mem _ hmem)]
  | case4 => rfl

/-- The distance between tab stops. -/
def tabWidth : Nat := 8

/-- The column behind a character that is no tab. -/
def columnAfter (column : Nat) (c : Char) : Nat :=
  if c = '\n' ∨ c = '\r' then 0 else column + 1

/-- Replaces tabs, the text beginning in the given column. -/
def expandTabsFrom (column : Nat) : List Char → List Char
  | [] => []
  | c :: rest =>
    if c = '\t' then
      let gap := tabWidth - column % tabWidth
      List.replicate gap ' ' ++ expandTabsFrom (column + gap) rest
    else c :: expandTabsFrom (columnAfter column c) rest

/-- Replaces tabs by spaces. -/
def expandTabs (s : List Char) : List Char := expandTabsFrom 0 s

/-- A place in a text. -/
structure Position where
  /-- The line, counted from one. -/
  line : Nat
  /-- The column, counted from one. -/
  column : Nat
  deriving DecidableEq, Repr

/-- The place behind the given characters. -/
def Position.after (s : List Char) : Position where
  line := 1 + s.count '\n'
  column := 1 + (s.reverse.takeWhile (· ≠ '\n')).length

/-- The place in a text where its last part begins. -/
def Position.ofRest (whole rest : List Char) : Position :=
  .after (whole.take (whole.length - rest.length))

@[simp] theorem Position.ofRest_append (front rest : List Char) :
    Position.ofRest (front ++ rest) rest = .after front := by
  simp [ofRest]

end CellMachine.Text
