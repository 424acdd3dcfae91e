import CellMachine.Proofs.Image.Rejection

/-!
# CellMachine.Proofs.Image.Overlong

**Where reading comes to an integer of too many digits.** Reading takes the integers of the longest
listing that a text begins with, one after another, so a digit limit ends it exactly if one of these
has too many digits (`overlong?_eq_none_iff`). What stands behind the listing is not looked at, so
it does not matter whether the text is a program.
-/

namespace CellMachine

/-- The least integer that has too many digits, if there is a limit. -/
def DigitLimit.least (limit : DigitLimit) : Int := Nat.pow 10 limit.most

theorem DigitLimit.not_writes_least {limit : DigitLimit} (h : limit.most ≠ 0) :
    limit.writes limit.least = false := by
  simp [writes, least, h]

namespace Image

variable {limit : DigitLimit} {s front rest : List Char} {v : Int}

/-- The longest listing that a text begins with has an integer of too many digits. -/
def Overlong (limit : DigitLimit) (s : List Char) : Prop :=
  ∃ front, Longest s front ∧
    ∃ field ∈ Text.fields ',' front, limit.reads (field.countP Char.isDigit) = false

/-- The part that is read is the longest listing. -/
theorem longest_listing (h : value? (skipBlanks s) = some (v, rest)) : Longest s (listing s) := by
  obtain ⟨front, hlongest, hs⟩ := longest_of_items h
  have hfront : listing s = front := by
    have hlength := congrArg List.length hs
    rw [List.length_append] at hlength
    simp only [listing, h]
    rw [show s.length - (items rest).2.length = front.length by omega, hs, List.take_left]
  rwa [hfront]

/-- A text that no integer begins has no listing. -/
theorem not_longest_of_no_value (h : value? (skipBlanks s) = none) : ¬Longest s front := by
  intro hlongest
  obtain ⟨tail, rfl⟩ := hlongest.starts
  obtain ⟨w, rest, hvalue, -⟩ := hlongest.isListing.reads tail
  rw [h] at hvalue
  cases hvalue

theorem overlong?_eq_none_iff {text : String} :
    overlong? limit text = none ↔ ¬Overlong limit (Text.expandTabs text.toList) := by
  rw [overlong?, digitCounts, List.find?_map, Option.map_eq_none_iff, List.find?_eq_none]
  cases hvalue : value? (skipBlanks (Text.expandTabs text.toList)) with
  | none =>
      have hempty : listing (Text.expandTabs text.toList) = [] := by simp only [listing, hvalue]
      refine iff_of_true ?_ fun h => not_longest_of_no_value hvalue h.choose_spec.1
      rw [hempty]
      simp [Text.fields, DigitLimit.reads]
  | some p =>
      have hlongest := longest_listing hvalue
      constructor
      · intro h hover
        obtain ⟨front, hfront, field, hfield, hreads⟩ := hover
        rw [hfront.unique hlongest] at hfield
        exact h field hfield (by simp [hreads])
      · intro h field hfield hreads
        exact h ⟨_, hlongest, field, hfield, by simpa using hreads⟩

/-- If none of its integers has too many digits, a text is read as it always is. -/
theorem ofTextWithin_of_short {text : String}
    (h : ¬Overlong limit (Text.expandTabs text.toList)) :
    ofTextWithin limit text = ofText text := by
  rw [ofTextWithin, overlong?_eq_none_iff.2 h]

/-- An integer of too many digits keeps a text from being read. -/
theorem exists_overlong {text : String} (h : Overlong limit (Text.expandTabs text.toList)) :
    ∃ refusal, (ofTextWithin limit text).outcome = .error (.overlong refusal) := by
  unfold ofTextWithin
  split
  · exact ⟨_, rfl⟩
  · rename_i hnone
    exact absurd h (overlong?_eq_none_iff.1 hnone)

/-- Decimals between commas are a listing. -/
theorem listing_decimals (v : Int) (vs : List Int) :
    Listing (",".intercalate ((v :: vs).map toString)).toList := by
  rw [String.toList_intercalate]
  change Listing ([','].intercalate _)
  rw [← Text.join_eq_intercalate]
  have hblanks : Blanks [] := by simp [Blanks]
  induction vs generalizing v with
  | nil => exact Listing.last hblanks (written_repr v)
  | cons w ws ih => exact Listing.more hblanks (written_repr v) hblanks (ih w)

/-- Decimals between commas are of digits, signs and commas. -/
theorem not_mem_decimals {c : Char} (hdigit : c.isDigit = false) (hsign : c ≠ '-')
    (hcomma : c ≠ ',') (v : Int) (vs : List Int) :
    c ∉ (",".intercalate ((v :: vs).map toString)).toList := by
  intro hc
  rw [← Text.join_fields ',' (",".intercalate ((v :: vs).map toString)).toList,
    Text.fields_decimals (List.cons_ne_nil v vs)] at hc
  obtain hc | ⟨field, hfield, hc⟩ := Text.mem_join hc
  · exact hcomma hc
  · obtain ⟨x, -, rfl⟩ := List.mem_map.1 hfield
    exact Text.not_mem_repr hdigit hsign x hc

/-- Decimals can be read exactly if they can be written. -/
theorem overlong_decimals_iff {v : Int} {vs : List Int} :
    Overlong limit (Text.expandTabs (",".intercalate ((v :: vs).map toString)).toList) ↔
      ∃ x ∈ v :: vs, limit.writes x = false := by
  have hfields := Text.fields_decimals (List.cons_ne_nil v vs)
  have hlongest : Longest (",".intercalate ((v :: vs).map toString)).toList
      (",".intercalate ((v :: vs).map toString)).toList :=
    ⟨listing_decimals v vs, List.prefix_rfl, fun _ _ hother => hother.length_le⟩
  have hcount : ∀ x : Int,
      limit.reads (x.repr.toList.countP Char.isDigit) = limit.writes x := by
    intro x
    rw [Text.countP_isDigit_repr, DigitLimit.writes_eq_reads]
  rw [Text.expandTabs,
    Text.expandTabsFrom_of_no_tab 0 (not_mem_decimals rfl (by decide) (by decide) v vs)]
  constructor
  · intro hover
    obtain ⟨front, hfront, field, hfield, hreads⟩ := hover
    rw [hfront.unique hlongest, hfields] at hfield
    obtain ⟨x, hx, rfl⟩ := List.mem_map.1 hfield
    exact ⟨x, hx, by rwa [hcount] at hreads⟩
  · intro h
    obtain ⟨x, hx, hwrites⟩ := h
    refine ⟨_, hlongest, x.repr.toList, ?_, by rwa [hcount]⟩
    rw [hfields]
    exact List.mem_map_of_mem hx

end Image

end CellMachine
