import Mathlib.Data.List.TakeWhile
import CellMachine.Text.Layout

/-!
# CellMachine.Proofs.Text.Position

**Positions in a text whose tabs are expanded.** The column of a position is counted in the last of
the lines in front of it (`LastLine`). A text with its tabs expanded has the lines it had before,
and a character that is no space comes from the same character of the text (`exists_origin`). So a
position in the expanded text is one in the text, in the same line, and in the same column unless a
tab stands in front of it in that line (`LastLine.expandTabs`).
-/

namespace CellMachine.Text

variable {s front rest line : List Char}

/-! ### The line of a position -/

/-- What stands behind the last newline of a text; all of it if there is none. -/
def LastLine (s line : List Char) : Prop :=
  '\n' ∉ line ∧ (s = line ∨ ∃ earlier, s = earlier ++ '\n' :: line)

theorem exists_lastLine (s : List Char) : ∃ line, LastLine s line := by
  induction s with
  | nil => exact ⟨[], by simp, .inl rfl⟩
  | cons c s ih =>
      obtain ⟨line, hline, rfl | ⟨earlier, rfl⟩⟩ := ih
      · by_cases hc : c = '\n'
        · exact ⟨s, hline, .inr ⟨[], by rw [hc]; rfl⟩⟩
        · exact ⟨c :: s, by simp [Ne.symm hc, hline], .inl rfl⟩
      · exact ⟨line, hline, .inr ⟨c :: earlier, rfl⟩⟩

theorem LastLine.column (h : LastLine s line) : (Position.after s).column = 1 + line.length := by
  obtain ⟨hline, hs⟩ := h
  have hkeep : ∀ c ∈ line.reverse, decide (c ≠ '\n') = true := by
    intro c hc
    rw [decide_eq_true_iff]
    rintro rfl
    exact hline (List.mem_reverse.1 hc)
  have hreverse : s.reverse.takeWhile (· ≠ '\n') = line.reverse := by
    rcases hs with rfl | ⟨earlier, rfl⟩
    · exact List.takeWhile_eq_self_iff.2 hkeep
    · rw [List.reverse_append, List.reverse_cons, List.append_assoc,
        List.takeWhile_append_of_pos hkeep]
      simp
  rw [Position.after, hreverse, List.length_reverse]

/-! ### Tabs -/

/-- What comes later does not change what comes first, and only the column is passed on. -/
theorem exists_expandTabsFrom_append (column : Nat) (s : List Char) :
    ∃ column', ∀ t, expandTabsFrom column (s ++ t) =
      expandTabsFrom column s ++ expandTabsFrom column' t := by
  induction s generalizing column with
  | nil => exact ⟨column, fun _ => rfl⟩
  | cons c s ih =>
      by_cases hc : c = '\t'
      · obtain ⟨column', ih⟩ := ih (column + (tabWidth - column % tabWidth))
        exact ⟨column', fun t => by simp [expandTabsFrom, hc, ih t]⟩
      · obtain ⟨column', ih⟩ := ih (columnAfter column c)
        exact ⟨column', fun t => by simp [expandTabsFrom, hc, ih t]⟩

theorem expandTabsFrom_of_no_tab (column : Nat) (h : '\t' ∉ s) : expandTabsFrom column s = s := by
  induction s generalizing column with
  | nil => rfl
  | cons c s ih =>
      obtain ⟨hc, hs⟩ := not_or.1 (mt List.mem_cons.2 h)
      rw [expandTabsFrom, if_neg (Ne.symm hc), ih _ hs]

theorem count_newline_expandTabsFrom (column : Nat) (s : List Char) :
    (expandTabsFrom column s).count '\n' = s.count '\n' := by
  induction s generalizing column with
  | nil => rfl
  | cons c s ih =>
      by_cases hc : c = '\t'
      · have hspaces : '\n' ∉ List.replicate (tabWidth - column % tabWidth) ' ' := by
          simp [List.mem_replicate]
        simp [expandTabsFrom, hc, ih, List.count_eq_zero_of_not_mem hspaces]
      · simp [expandTabsFrom, hc, ih, List.count_cons]

/-- Where an expanded text does not go on with a space, it was split at the same place. -/
theorem exists_origin {column : Nat} (h : expandTabsFrom column s = front ++ rest)
    (hrest : ∀ c, rest.head? = some c → c ≠ ' ') :
    ∃ origin behind, s = origin ++ behind ∧ expandTabsFrom column origin = front ∧
      behind.head? = rest.head? := by
  induction s generalizing column front with
  | nil =>
      obtain ⟨rfl, rfl⟩ := List.append_eq_nil_iff.1 h.symm
      exact ⟨[], [], rfl, rfl, rfl⟩
  | cons c s ih =>
      by_cases hc : c = '\t'
      · rw [expandTabsFrom, if_pos hc] at h
        -- the spaces for the tab belong to the front
        obtain ⟨more, rfl, hnext⟩ : ∃ more,
            front = List.replicate (tabWidth - column % tabWidth) ' ' ++ more ∧
              expandTabsFrom (column + (tabWidth - column % tabWidth)) s = more ++ rest := by
          rcases List.append_eq_append_iff.1 h with ⟨more, hfront, hnext⟩ | ⟨left, hspaces, hnext⟩
          · exact ⟨more, hfront, hnext⟩
          · cases left with
            | nil => exact ⟨[], by simpa using hspaces.symm, by simpa using hnext.symm⟩
            | cons d left =>
                have hd : d ∈ List.replicate (tabWidth - column % tabWidth) ' ' := by
                  rw [hspaces]
                  simp
                exact absurd (List.mem_replicate.1 hd).2 (hrest d (by rw [hnext]; rfl))
        obtain ⟨origin, behind, rfl, rfl, hhead⟩ := ih hnext
        exact ⟨c :: origin, behind, rfl, by rw [expandTabsFrom, if_pos hc], hhead⟩
      · rw [expandTabsFrom, if_neg hc] at h
        cases front with
        | nil => exact ⟨[], c :: s, rfl, rfl, by rw [← List.nil_append rest, ← h]; rfl⟩
        | cons d front =>
            obtain ⟨rfl, hnext⟩ := List.cons.inj h
            obtain ⟨origin, behind, rfl, rfl, hhead⟩ := ih hnext
            exact ⟨c :: origin, behind, rfl, by rw [expandTabsFrom, if_neg hc], hhead⟩

/-- A last line without tabs stays as it is. -/
theorem LastLine.expandTabs (h : LastLine s line) (htab : '\t' ∉ line) :
    LastLine (expandTabs s) line := by
  obtain ⟨hline, rfl | ⟨earlier, rfl⟩⟩ := h
  · exact ⟨hline, .inl (expandTabsFrom_of_no_tab 0 htab)⟩
  · obtain ⟨column, happend⟩ := exists_expandTabsFrom_append 0 earlier
    refine ⟨hline, .inr ⟨expandTabsFrom 0 earlier, ?_⟩⟩
    rw [Text.expandTabs, happend, expandTabsFrom, if_neg (by decide),
      expandTabsFrom_of_no_tab _ htab]

end CellMachine.Text
