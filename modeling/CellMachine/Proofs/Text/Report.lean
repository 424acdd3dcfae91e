import Mathlib.Data.List.Basic
import CellMachine.Proofs.Image.Overlong
import CellMachine.Report
import CellMachine.Text.Lines

/-!
# CellMachine.Proofs.Text.Report

**What is printed can be read back.** A report holds every value that is no text as a decimal on a
line of its own. So its lines, with commas between them, are a program for the values, and behind
text its last lines are the decimals of the rest, whatever digits and newlines the text holds. Under
a digit limit the same is true of the values in front of the first that is not written, where the
report ends (`print_read_back`).

Readers differ in what ends a line for them. The proof needs only what they have in common, that
what stands behind a newline is cut by itself and that a decimal is one line (`CutsLines`). Both a
reader that ends lines at newlines only and one that ends them at every line end are of this kind.
-/

namespace CellMachine.Report

variable {limit : DigitLimit} {cut : String → List String} {text : String}
variable {settings : Settings} {values rest : List Int}

/-- The lines of a text for a reader that ends them at newlines only: what stands in front of each
newline, and what stands behind the last one unless it is empty. -/
def newlineLines (text : String) : List String :=
  let pieces := Text.fields '\n' text.toList
  (if pieces.getLast? = some [] then pieces.dropLast else pieces).map String.ofList

/-- A way to cut texts into lines for which every newline ends a line and no decimal holds the end
of one. -/
structure CutsLines (cut : String → List String) : Prop where
  /-- The empty text has no lines. -/
  empty : cut "" = []
  /-- What stands behind a newline is cut as a text of its own. -/
  behind : ∀ front rest, cut (front ++ "\n" ++ rest) = cut (front ++ "\n") ++ cut rest
  /-- A decimal that a newline closes is a line. -/
  decimal : ∀ value, cut (line value) = [toString value]

/-! ### Lines of a report -/

theorem CutsLines.cut_lines (h : CutsLines cut) (values : List Int) :
    cut (lines values) = values.map toString := by
  induction values with
  | nil => exact h.empty
  | cons value values ih =>
      have hsplit : lines (value :: values) = toString value ++ "\n" ++ lines values := by
        rw [lines, List.map_cons, String.join_cons]
        rfl
      rw [hsplit, h.behind, ih]
      exact congrArg (· ++ values.map toString) (h.decimal value)

/-- Behind a closed text no line is continued. -/
theorem CutsLines.cut_closed_append (h : CutsLines cut) (text rest : String) :
    cut (closed text ++ rest) = cut (closed text) ++ cut rest := by
  unfold closed
  split
  · rename_i hclosed
    rcases hclosed with rfl | hlast
    · rw [String.empty_append, h.empty, List.nil_append]
    · obtain ⟨front, hfront⟩ := List.getLast?_eq_some_iff.1 hlast
      have htext : text = .ofList front ++ "\n" := by
        rw [← String.toList_inj, hfront]
        simp
      rw [htext, h.behind]
  · exact h.behind text rest

theorem closed_eq_append (text : String) :
    closed text =
      text ++ if text ≠ "" ∧ text.toList.getLast? ≠ some '\n' then "\n" else "" := by
  unfold closed
  split
  · rename_i h
    rw [if_neg fun hopen => h.elim hopen.1 hopen.2, String.append_empty]
  · rename_i h
    rw [if_pos (not_or.1 h)]

/-! ### Two readers -/

theorem newlineLines_append_newline (front rest : String) :
    newlineLines (front ++ "\n" ++ rest) =
      (Text.fields '\n' front.toList).map String.ofList ++ newlineLines rest := by
  have hfields : Text.fields '\n' (front ++ "\n" ++ rest).toList =
      Text.fields '\n' front.toList ++ Text.fields '\n' rest.toList := by
    rw [← Text.fields_append_separator]
    simp
  have hne := Text.fields_ne_nil '\n' rest.toList
  unfold newlineLines
  dsimp only
  rw [hfields, List.getLast?_append_of_ne_nil _ hne, List.dropLast_append_of_ne_nil hne]
  split
  · rw [List.map_append]
  · rw [List.map_append]

theorem newlineLines_newline (front : String) :
    newlineLines (front ++ "\n") = (Text.fields '\n' front.toList).map String.ofList := by
  have h := newlineLines_append_newline front ""
  rwa [String.append_empty, show newlineLines "" = [] from rfl, List.append_nil] at h

/-- The newline that closes a text adds no line. -/
theorem newlineLines_closed (text : String) : newlineLines (closed text) = newlineLines text := by
  unfold closed
  split
  · rfl
  · rename_i hopen
    have hlast : ¬(Text.fields '\n' text.toList).getLast? = some [] := by
      rwa [Text.getLast?_fields_eq_nil_iff, String.toList_eq_nil_iff]
    rw [newlineLines_newline]
    simp only [newlineLines, if_neg hlast]

theorem cutsLines_newlineLines : CutsLines newlineLines where
  empty := rfl
  behind := by
    intro front rest
    rw [newlineLines_append_newline, newlineLines_newline]
  decimal := by
    intro value
    have hfields : Text.fields '\n' (toString value).toList = [(toString value).toList] :=
      Text.fields_of_not_mem (Text.not_mem_repr rfl (by decide) value)
    rw [line, newlineLines_newline, hfields, List.map_singleton, String.ofList_toList]

/-- No character of a decimal ends a line. -/
theorem isLineEnd_of_mem_decimal {value : Int} {c : Char} (h : c ∈ (toString value).toList) :
    Text.isLineEnd c = false := by
  rcases Text.isDigit_or_eq_of_mem_repr h with hdigit | rfl
  · obtain ⟨hlow, hhigh⟩ := Text.toNat_of_isDigit hdigit
    simp only [Text.isLineEnd, Text.lineEnds, List.contains_eq_mem, decide_eq_false_iff_not,
      List.mem_cons, List.not_mem_nil, or_false]
    omega
  · rfl

theorem cutsLines_lines : CutsLines fun text => (Text.lines text.toList).map String.ofList where
  empty := rfl
  behind := by
    intro front rest
    rw [← List.map_append, String.toList_append, String.toList_append]
    exact congrArg _ (by simpa using Text.lines_append_newline front.toList rest.toList)
  decimal := by
    intro value
    have hdecimal : ∀ c ∈ (toString value).toList, Text.isLineEnd c = false :=
      fun c => isLineEnd_of_mem_decimal
    have hlines := Text.lines_append hdecimal []
    rw [line, String.toList_append]
    exact (congrArg _ hlines).trans (by simp [Text.lines])

/-! ### Reading a report -/

/-- Decimals that can be written are read back, with commas between them. -/
theorem ofTextWithin_decimals (hne : values ≠ []) (h : ∀ v ∈ values, limit.writes v = true) :
    (Image.ofTextWithin limit (",".intercalate (values.map toString))).outcome = .ok values := by
  obtain ⟨value, values, rfl⟩ := List.exists_cons_of_ne_nil hne
  have hshort : ¬Image.Overlong limit
      (Text.expandTabs (",".intercalate ((value :: values).map toString)).toList) := by
    rw [Image.overlong_decimals_iff]
    simpa using h
  rw [Image.ofTextWithin_of_short hshort, Image.ofText_eq_ok_iff]
  exact Image.isProgram_decimals value values

/-- The lines of a text and of values behind it are those of the text, and then the decimals. -/
theorem CutsLines.cut_parts (h : CutsLines cut) (text : String) (values : List Int) :
    cut (closed text ++ lines values) = cut (closed text) ++ values.map toString := by
  rw [h.cut_closed_append, h.cut_lines]

theorem newlineLines_parts (text : String) (values : List Int) :
    newlineLines (closed text ++ lines values) = newlineLines text ++ values.map toString := by
  rw [cutsLines_newlineLines.cut_parts, newlineLines_closed]

/-- **What is printed can be read back.** If all values that are no text can be written, they are
printed. Without text, the lines of what is printed are then the decimals of the values in their
order, and with commas between them they are read as a program for these values. With text, what is
printed is the text that the values decode to, a newline if the text needs one, and each value of
the rest on a line of its own: so its lines are those of the text, and then the decimals of the
rest. The same decimals are the last lines for a reader who ends lines at other line ends too.

In front of the first value that cannot be written the report ends, and what it holds by then is as
much as it holds of the values in front. -/
theorem print_read_back (limit : DigitLimit) (settings : Settings) (values : List Int) :
    ((∀ v ∈ (parts settings values).2, limit.writes v = true) →
      (print limit settings values).refusal = none ∧
      (settings.asciiOutput = false →
        newlineLines (print limit settings values).text = values.map toString ∧
        (Text.lines (print limit settings values).text.toList).map String.ofList =
          values.map toString ∧
        (values ≠ [] →
          (Image.ofTextWithin limit
            (",".intercalate (newlineLines (print limit settings values).text))).outcome =
              .ok values)) ∧
      (settings.asciiOutput = true → ∀ text rest, Ascii.decode values = (text, rest) →
        (print limit settings values).text =
          text ++ (if text ≠ "" ∧ text.toList.getLast? ≠ some '\n' then "\n" else "") ++
            String.join (rest.map fun value => toString value ++ "\n") ∧
        newlineLines (print limit settings values).text = newlineLines text ++ rest.map toString ∧
        rest.map toString <:+
          (Text.lines (print limit settings values).text.toList).map String.ofList)) ∧
    ∀ front v back, (parts settings values).2 = front ++ v :: back →
      (∀ w ∈ front, limit.writes w = true) → limit.writes v = false →
      (print limit settings values).refusal = some (.write limit) ∧
      (print limit settings values).text =
        closed (parts settings values).1 ++ String.join (front.map fun w => toString w ++ "\n") ∧
      newlineLines (print limit settings values).text =
        newlineLines (parts settings values).1 ++ front.map toString ∧
      front.map toString <:+
        (Text.lines (print limit settings values).text.toList).map String.ofList := by
  constructor
  · intro hwrites
    rw [print_of_writes hwrites]
    refine ⟨rfl, ?_, ?_⟩
    · intro hplain
      have hparts : parts settings values = ("", values) := by rw [parts, hplain]; rfl
      rw [hparts] at hwrites
      have hrender : render settings values = lines values := by rw [render, hplain]; rfl
      have hlines := cutsLines_newlineLines.cut_lines values
      rw [hrender]
      refine ⟨hlines, cutsLines_lines.cut_lines values, ?_⟩
      intro hne
      rw [hlines]
      exact ofTextWithin_decimals hne hwrites
    · intro hascii text rest hdecode
      have hparts : parts settings values = (text, rest) := by rw [parts, if_pos hascii, hdecode]
      rw [render_eq_parts, hparts]
      refine ⟨?_, newlineLines_parts text rest, _, (cutsLines_lines.cut_parts text rest).symm⟩
      rw [closed_eq_append]
      rfl
  · intro front v back hparts hfront hv
    rw [print_of_refused hparts hfront hv]
    exact ⟨rfl, rfl, newlineLines_parts _ front, _, (cutsLines_lines.cut_parts _ front).symm⟩

/-- Values below zero and of many digits are read back. Behind a text that ends with a digit the
rest stands on lines of its own, as it does behind a carriage return, which makes one line end with
the newline that closes the text. -/
theorem print_read_back_behind_digits :
    (Image.ofTextWithin .usual (",".intercalate
      (newlineLines (print .usual {} [-5, 0, 98765432109876543210]).text))).outcome =
        .ok [-5, 0, 98765432109876543210] ∧
    (print .usual { asciiOutput := true } [49, 10, 50, -7, 51]).text = "1\n2\n-7\n51\n" ∧
    newlineLines (print .usual { asciiOutput := true } [49, 10, 50, -7, 51]).text =
      ["1", "2", "-7", "51"] ∧
    ["200"] <:+ (Text.lines (print .usual { asciiOutput := true }
      [65, 13, 200]).text.toList).map String.ofList ∧
    newlineLines (print .usual {} [7, Nat.pow 10 4300, 8]).text = ["7"] := by
  have hplain := ((print_read_back .usual {} [-5, 0, 98765432109876543210]).1
    (by decide +kernel)).2.1 rfl
  have hdigit := ((print_read_back .usual { asciiOutput := true } [49, 10, 50, -7, 51]).1
    (by decide +kernel)).2.2 rfl "1\n2" [-7, 51] rfl
  have hreturn := ((print_read_back .usual { asciiOutput := true } [65, 13, 200]).1
    (by decide +kernel)).2.2 rfl "A\r" [200] rfl
  have hrefused := (print_read_back .usual {} [7, Nat.pow 10 4300, 8]).2 [7] (Nat.pow 10 4300) [8]
    rfl (by decide +kernel) (by decide +kernel)
  exact ⟨hplain.2.2 (by simp), hdigit.1, hdigit.2.1, hreturn.2.2, hrefused.2.2.1⟩

/-- A value of more digits than are written: what is in front of it is printed, and no more. -/
theorem print_read_back_unwritten :
    (print .usual {} [7, Nat.pow 10 4300]).text = "7\n" ∧
      (print .usual {} [7, Nat.pow 10 4300]).refusal = some (.write .usual) ∧
      newlineLines (print .usual {} [7, Nat.pow 10 4300]).text ≠
        ([7, (Nat.pow 10 4300 : Int)] : List Int).map toString := by
  have hprint : print .usual {} [7, Nat.pow 10 4300] = ⟨"7\n", some (.write .usual)⟩ := by
    decide +kernel
  rw [hprint]
  refine ⟨rfl, rfl, ?_⟩
  intro h
  cases congrArg List.length h

end CellMachine.Report
