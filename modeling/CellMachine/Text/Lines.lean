/-!
# Lines

A text cut at its line ends. A line ends at a newline, a vertical tab, a form feed, a carriage
return, the separators U+001C to U+001E, the next line control U+0085, and the line and paragraph
separators U+2028 and U+2029; a carriage return and the newline behind it are one line end. What
stands behind the last line end is a line only if it is not empty.
-/

namespace CellMachine.Text

/-- The code points of the characters that end a line. -/
def lineEnds : List Nat :=
  [0x0A, 0x0B, 0x0C, 0x0D, 0x1C, 0x1D, 0x1E, 0x85, 0x2028, 0x2029]

/-- Does this character end a line? -/
def isLineEnd (c : Char) : Bool := lineEnds.contains c.toNat

/-- The lines of a text, without their ends. -/
def lines : List Char → List (List Char)
  | [] => []
  | '\r' :: '\n' :: rest => [] :: lines rest
  | c :: rest =>
    if isLineEnd c then [] :: lines rest
    else
      match lines rest with
      | [] => [[c]]
      | line :: others => (c :: line) :: others

/-- A text that holds anything holds a line. -/
theorem lines_ne_nil {s : List Char} (h : s ≠ []) : lines s ≠ [] := by
  unfold lines
  split
  · exact absurd rfl h
  · simp
  · split
    · simp
    · split <;> simp

/-- What stands behind a newline is cut as a text of its own. -/
theorem lines_append_newline (s t : List Char) :
    lines (s ++ '\n' :: t) = lines (s ++ ['\n']) ++ lines t := by
  induction s with
  | nil => simp [lines, isLineEnd, lineEnds]
  | cons c s ih =>
    by_cases hpair : c = '\r' ∧ ∃ rest, s = '\n' :: rest
    · obtain ⟨rfl, rest, rfl⟩ := hpair
      simpa [lines, isLineEnd, lineEnds] using ih
    · by_cases hlone : c = '\r' ∧ s = []
      · obtain ⟨rfl, rfl⟩ := hlone
        simp [lines]
      · -- nowhere else do the first two characters make one line end
        have hsingle : ∀ u rest, c = '\r' → s ++ '\n' :: u = '\n' :: rest → False := by
          intro u rest hc hs
          cases s with
          | nil => exact hlone ⟨hc, rfl⟩
          | cons d s => exact hpair ⟨hc, s, by rw [(List.cons.inj hs).1]⟩
        rw [List.cons_append, List.cons_append, lines, lines, ih]
        · cases hs : lines (s ++ ['\n']) with
          | nil => exact absurd hs (lines_ne_nil (by simp))
          | cons line others => split <;> simp
        · exact hsingle []
        · exact hsingle t

/-- Behind a line that a newline closes the cutting goes on. -/
theorem lines_append {line : List Char} (h : ∀ c ∈ line, isLineEnd c = false)
    (rest : List Char) : lines (line ++ '\n' :: rest) = line :: lines rest := by
  induction line with
  | nil => simp [lines, isLineEnd, lineEnds]
  | cons c line ih =>
    have hc : isLineEnd c = false := h c (by simp)
    have hcr : c ≠ '\r' := by
      rintro rfl
      exact absurd hc (by decide)
    rw [List.cons_append, lines]
    · simp [hc, ih fun d hd => h d (by simp [hd])]
    · intro tail htail
      exact absurd htail hcr

end CellMachine.Text
