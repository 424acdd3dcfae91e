import Mathlib.Data.List.FinRange
import CellMachine.Amplifier.Orders

/-!
# CellMachine.Proofs.Amplifier.Arrangements

**`orders` lists every arrangement, in the order of places.** The arrangements of a list are its
permutations (`mem_orders_iff`). Elements are told apart by their places: an arrangement of a list
is an arrangement of its places, looked up (`orders_eq_map`), and arrangements of places come in
strictly increasing lexicographic order (`pairwise_orders`). The list itself comes first
(`exists_orders_eq_cons`).
-/

namespace CellMachine

variable {α β : Type} {x : α} {xs rest order : List α} {count : Nat}

/-! ### Every arrangement -/

/-- Each element can be picked. -/
theorem exists_pick (h : x ∈ xs) : ∃ rest, (x, rest) ∈ picks xs := by
  induction xs with
  | nil => cases h
  | cons y ys ih =>
      rcases List.mem_cons.1 h with rfl | hys
      · exact ⟨ys, by simp [picks]⟩
      · obtain ⟨rest, hrest⟩ := ih hys
        exact ⟨y :: rest, List.mem_cons_of_mem _ (List.mem_map.2 ⟨_, hrest, rfl⟩)⟩

theorem mem_ordersOf_succ :
    order ∈ ordersOf (count + 1) xs ↔
      ∃ x rest tail, (x, rest) ∈ picks xs ∧ tail ∈ ordersOf count rest ∧ order = x :: tail := by
  simp only [ordersOf, List.mem_flatMap, List.mem_map, Prod.exists]
  constructor
  · intro h
    obtain ⟨x, rest, hpick, tail, htail, horder⟩ := h
    exact ⟨x, rest, tail, hpick, htail, horder.symm⟩
  · intro h
    obtain ⟨x, rest, tail, hpick, htail, horder⟩ := h
    exact ⟨x, rest, hpick, tail, htail, horder.symm⟩

theorem length_of_pick (h : (x, rest) ∈ picks xs) : xs.length = rest.length + 1 :=
  (perm_of_mem_picks h).length_eq.symm

theorem mem_ordersOf_iff (h : xs.length = count) : order ∈ ordersOf count xs ↔ order.Perm xs := by
  induction count generalizing xs order with
  | zero =>
      rw [List.length_eq_zero_iff] at h
      subst h
      simp [ordersOf]
  | succ count ih =>
      rw [mem_ordersOf_succ]
      constructor
      · intro horder
        obtain ⟨x, rest, tail, hpick, htail, rfl⟩ := horder
        have hlength := length_of_pick hpick
        exact (((ih (by omega)).1 htail).cons x).trans (perm_of_mem_picks hpick)
      · intro hperm
        cases order with
        | nil => simp [← hperm.length_eq] at h
        | cons x tail =>
            obtain ⟨rest, hpick⟩ := exists_pick (hperm.subset (List.mem_cons_self ..))
            have hlength := length_of_pick hpick
            have htail : tail.Perm rest := (hperm.trans (perm_of_mem_picks hpick).symm).cons_inv
            exact ⟨x, rest, tail, hpick, (ih (by omega)).2 htail, rfl⟩

/-- The arrangements of a list are its permutations. -/
theorem mem_orders_iff : order ∈ orders xs ↔ order.Perm xs := mem_ordersOf_iff rfl

/-- The list itself is the first of its arrangements. -/
theorem exists_orders_eq_cons (xs : List α) : ∃ others, orders xs = xs :: others := by
  induction xs with
  | nil => exact ⟨[], rfl⟩
  | cons x xs ih =>
      obtain ⟨others, hothers⟩ := ih
      have hxs : ordersOf xs.length xs = xs :: others := hothers
      simp only [orders, List.length_cons, ordersOf, picks, List.flatMap_cons, hxs, List.map_cons,
        List.cons_append]
      exact ⟨_, rfl⟩

/-! ### Places -/

theorem picks_map (f : α → β) (xs : List α) :
    picks (xs.map f) = (picks xs).map fun p => (f p.1, p.2.map f) := by
  induction xs with
  | nil => rfl
  | cons x xs ih => simp [picks, ih]

theorem ordersOf_map (f : α → β) (count : Nat) (xs : List α) :
    ordersOf count (xs.map f) = (ordersOf count xs).map (List.map f) := by
  induction count generalizing xs with
  | zero => rfl
  | succ count ih =>
      simp [ordersOf, picks_map, List.flatMap_map, List.map_flatMap, ih, Function.comp_def]

/-- The places of a list, as arranged, looked up. -/
theorem orders_eq_map (xs : List α) :
    orders xs = (orders (List.finRange xs.length)).map fun places => places.map xs.get := by
  have hplaces := ordersOf_map xs.get xs.length (List.finRange xs.length)
  rw [List.map_get_finRange] at hplaces
  rw [orders, hplaces, orders, List.length_finRange]

/-! ### The order of the arrangements -/

section Lex

variable {r : α → α → Prop}

theorem sublist_of_pick (h : (x, rest) ∈ picks xs) : rest.Sublist xs := by
  induction xs generalizing rest with
  | nil => cases h
  | cons y ys ih =>
      rcases List.mem_cons.1 h with heq | hlater
      · obtain ⟨-, rfl⟩ := Prod.mk.inj heq
        exact List.sublist_cons_self y rest
      · obtain ⟨⟨z, zs⟩, hpick, heq⟩ := List.mem_map.1 hlater
        obtain ⟨rfl, rfl⟩ := Prod.mk.inj heq
        exact (ih hpick).cons_cons y

theorem mem_of_pick (h : (x, rest) ∈ picks xs) : x ∈ xs :=
  (perm_of_mem_picks h).subset (List.mem_cons_self ..)

/-- Elements are picked in the order in which they stand. -/
theorem pairwise_picks (h : xs.Pairwise r) : (picks xs).Pairwise fun p q => r p.1 q.1 := by
  induction xs with
  | nil => exact .nil
  | cons x xs ih =>
      obtain ⟨hx, hxs⟩ := List.pairwise_cons.1 h
      refine List.pairwise_cons.2 ⟨?_, List.pairwise_map.2 (ih hxs)⟩
      intro q hq
      obtain ⟨⟨y, ys⟩, hpick, rfl⟩ := List.mem_map.1 hq
      exact hx y (mem_of_pick hpick)

theorem pairwise_ordersOf (h : xs.Pairwise r) (count : Nat) :
    (ordersOf count xs).Pairwise (List.Lex r) := by
  induction count generalizing xs with
  | zero => exact List.pairwise_singleton _ _
  | succ count ih =>
      -- arrangements with the same first element go on in order, others differ there
      rw [ordersOf, List.pairwise_flatMap]
      constructor
      · intro p hp
        exact List.pairwise_map.2 ((ih (h.sublist (sublist_of_pick hp))).imp .cons)
      · refine (pairwise_picks h).imp ?_
        intro p q hpq order horder order' horder'
        obtain ⟨tail, -, rfl⟩ := List.mem_map.1 horder
        obtain ⟨tail', -, rfl⟩ := List.mem_map.1 horder'
        exact .rel hpq

/-- Arrangements of places come in strictly increasing lexicographic order. -/
theorem pairwise_orders (n : Nat) : (orders (List.finRange n)).Pairwise (· < ·) :=
  pairwise_ordersOf (List.pairwise_lt_finRange n) _

end Lex

end CellMachine
