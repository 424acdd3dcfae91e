import CellMachine.Text.Decimal

/-!
# Fields

A text cut at every separator. There is always one more field than there are separators, so that the
empty text has one field, and joining the fields gives the text back (`join_fields`).
-/

namespace CellMachine.Text

/-- The pieces of a text between separators. -/
def fields (separator : Char) : List Char → List (List Char)
  | [] => [[]]
  | c :: rest =>
    if c = separator then [] :: fields separator rest
    else
      match fields separator rest with
      | [] => [[c]]
      | field :: others => (c :: field) :: others

/-- Fields with separators between them. -/
def join (separator : Char) : List (List Char) → List Char
  | [] => []
  | [field] => field
  | field :: next :: others => field ++ separator :: join separator (next :: others)

theorem fields_ne_nil (separator : Char) (s : List Char) : fields separator s ≠ [] := by
  cases s with
  | nil => simp [fields]
  | cons c rest =>
    unfold fields
    split
    · simp
    · split <;> simp

/-- Nothing is lost but the separators. -/
theorem join_fields (separator : Char) (s : List Char) :
    join separator (fields separator s) = s := by
  induction s with
  | nil => rfl
  | cons c rest ih =>
    have hne := fields_ne_nil separator rest
    cases hf : fields separator rest with
    | nil => exact absurd hf hne
    | cons field others =>
      rw [hf] at ih
      by_cases hc : c = separator
      · simp [fields, hc, hf, join, ih]
      · cases others with
        | nil => simpa [fields, hc, hf, join] using ih
        | cons next others => simpa [fields, hc, hf, join] using ih

/-- A text without separators is one field. -/
theorem fields_of_not_mem {separator : Char} {s : List Char} (h : separator ∉ s) :
    fields separator s = [s] := by
  induction s with
  | nil => rfl
  | cons c rest ih =>
    have hc : c ≠ separator := fun hc => h (by simp [hc])
    have hrest : separator ∉ rest := fun hmem => h (by simp [hmem])
    simp [fields, hc, ih hrest]

/-- What stands behind a separator is cut as a text of its own. -/
theorem fields_append_separator (separator : Char) (s t : List Char) :
    fields separator (s ++ separator :: t) = fields separator s ++ fields separator t := by
  induction s with
  | nil => simp [fields]
  | cons c s ih =>
    by_cases hc : c = separator
    · simp [fields, hc, ih]
    · cases hf : fields separator s with
      | nil => exact absurd hf (fields_ne_nil separator s)
      | cons field others => simp [fields, hc, ih, hf]

/-- Behind a first field without separators the cutting goes on. -/
theorem fields_append {separator : Char} {field : List Char} (h : separator ∉ field)
    (rest : List Char) :
    fields separator (field ++ separator :: rest) = field :: fields separator rest := by
  rw [fields_append_separator, fields_of_not_mem h, List.singleton_append]

/-- Fields without separators are what their joining is cut into. -/
theorem fields_join {separator : Char} {parts : List (List Char)} (hne : parts ≠ [])
    (h : ∀ part ∈ parts, separator ∉ part) : fields separator (join separator parts) = parts := by
  induction parts with
  | nil => exact absurd rfl hne
  | cons part others ih =>
    cases others with
    | nil => exact fields_of_not_mem (h part (by simp))
    | cons next others =>
      rw [join, fields_append (h part (by simp)),
        ih (by simp) fun part hpart => h part (List.mem_cons_of_mem _ hpart)]

/-- Joining adds no characters but separators. -/
theorem mem_join {separator c : Char} {parts : List (List Char)} (h : c ∈ join separator parts) :
    c = separator ∨ ∃ part ∈ parts, c ∈ part := by
  fun_induction join separator parts with
  | case1 => cases h
  | case2 part => exact .inr ⟨part, by simp, h⟩
  | case3 part next others ih =>
    rcases List.mem_append.1 h with h | h
    · exact .inr ⟨part, by simp, h⟩
    · rcases List.mem_cons.1 h with h | h
      · exact .inl h
      · obtain h | ⟨other, hother, h⟩ := ih h
        · exact .inl h
        · exact .inr ⟨other, List.mem_cons_of_mem _ hother, h⟩

/-- A last field is joined behind a separator. -/
theorem join_concat {separator : Char} {parts : List (List Char)} (hne : parts ≠ [])
    (last : List Char) :
    join separator (parts ++ [last]) = join separator parts ++ separator :: last := by
  induction parts with
  | nil => exact absurd rfl hne
  | cons part others ih =>
    cases others with
    | nil => rfl
    | cons next others =>
      have hlast := ih (List.cons_ne_nil next others)
      rw [List.cons_append] at hlast
      rw [List.cons_append, List.cons_append, join, hlast, join, List.append_assoc,
        List.cons_append]

/-- The last field is empty only if the text is, or ends with a separator. -/
theorem getLast?_fields_eq_nil_iff {separator : Char} {s : List Char} :
    (fields separator s).getLast? = some [] ↔ s = [] ∨ s.getLast? = some separator := by
  constructor
  · intro h
    obtain ⟨parts, hparts⟩ := List.getLast?_eq_some_iff.1 h
    have hjoin := join_fields separator s
    rw [hparts] at hjoin
    by_cases hne : parts = []
    · subst hne
      exact .inl hjoin.symm
    · rw [join_concat hne] at hjoin
      rw [← hjoin]
      exact .inr List.getLast?_concat
  · intro h
    rcases h with rfl | h
    · rfl
    · obtain ⟨front, rfl⟩ := List.getLast?_eq_some_iff.1 h
      rw [fields_append_separator]
      exact List.getLast?_concat

/-- Joining puts one separator between any two fields. -/
theorem join_eq_intercalate (separator : Char) (parts : List (List Char)) :
    join separator parts = [separator].intercalate parts := by
  induction parts with
  | nil => rfl
  | cons part others ih =>
    cases others with
    | nil => simp [join, List.intercalate]
    | cons next others =>
      rw [join, ih]
      simp [List.intercalate]

/-- Decimals between commas are cut into the decimals. -/
theorem fields_decimals {xs : List Int} (hne : xs ≠ []) :
    fields ',' (",".intercalate (xs.map toString)).toList = xs.map fun x => x.repr.toList := by
  have hjoin : (",".intercalate (xs.map toString)).toList =
      join ',' (xs.map fun x => x.repr.toList) := by
    rw [String.toList_intercalate, join_eq_intercalate, List.map_map]
    rfl
  rw [hjoin]
  refine fields_join (by simpa using hne) ?_
  intro field hfield
  obtain ⟨x, -, rfl⟩ := List.mem_map.1 hfield
  exact not_mem_repr rfl (by decide) x

end CellMachine.Text
