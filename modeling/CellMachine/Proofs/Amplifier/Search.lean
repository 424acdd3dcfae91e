import Mathlib.Data.List.Induction
import CellMachine.Proofs.Amplifier.Arrangements
import CellMachine.Proofs.Amplifier.Bound

/-!
# CellMachine.Proofs.Amplifier.Search

**The search finds the greatest signal and the first order that gives it.** The orders tried are the
arrangements of the phases, in the lexicographic order of places. If all of them give a signal, the
search keeps the first of the greatest (`bestOrder_of_ok`); if one fails, the search fails as the
first that does (`bestOrder_of_error`).
-/

namespace CellMachine.Amplifier

variable {α β : Type} {value : α → Int} {L : List α} {x : α}
variable {wiring : Wiring} {fuel : Nat} {image : List Int} {phases : Phases} {seed : Int}

/-! ### The first of the greatest -/

/-- This element has the greatest value in a list, and no element before it has the same. -/
def FirstGreatest (value : α → Int) (L : List α) (x : α) : Prop :=
  ∃ front back, L = front ++ x :: back ∧ (∀ y ∈ front, value y < value x) ∧
    ∀ y ∈ back, value y ≤ value x

theorem FirstGreatest.mem (h : FirstGreatest value L x) : x ∈ L := by
  obtain ⟨front, back, rfl, -, -⟩ := h
  simp

theorem FirstGreatest.le (h : FirstGreatest value L x) {y : α} (hy : y ∈ L) :
    value y ≤ value x := by
  obtain ⟨front, back, rfl, hfront, hback⟩ := h
  rcases List.mem_append.1 hy with hy | hy
  · exact Int.le_of_lt (hfront y hy)
  · rcases List.mem_cons.1 hy with rfl | hy
    · exact Int.le_refl _
    · exact hback y hy

/-- If the first element of a list has the greatest value, it is found. -/
theorem FirstGreatest.eq_head {y : α} (h : FirstGreatest value (y :: L) x)
    (hy : value x ≤ value y) : x = y := by
  obtain ⟨front, back, heq, hfront, -⟩ := h
  cases front with
  | nil => exact (List.cons.inj heq).1.symm
  | cons z front =>
      obtain ⟨rfl, -⟩ := List.cons.inj heq
      exact absurd (hfront y (by simp)) (Int.not_lt.2 hy)

/-- What is found among the images of a list is the image of what is found in the list. -/
theorem FirstGreatest.of_map {f : β → α} {L : List β} (h : FirstGreatest value (L.map f) x) :
    ∃ p, x = f p ∧ FirstGreatest (fun q => value (f q)) L p := by
  obtain ⟨front, back, heq, hfront, hback⟩ := h
  obtain ⟨front, rest, rfl, rfl, hrest⟩ := List.map_eq_append_iff.1 heq
  obtain ⟨p, back, rfl, rfl, rfl⟩ := List.map_eq_cons_iff.1 hrest
  refine ⟨p, rfl, front, back, rfl, ?_, ?_⟩
  · intro q hq
    exact hfront _ (List.mem_map_of_mem hq)
  · intro q hq
    exact hback _ (List.mem_map_of_mem hq)

/-- Keeping the better of the best so far and the next keeps the first of the greatest. -/
theorem foldl_better (value : Phases → Int) {L : List Phases} (hne : L ≠ []) :
    ∃ order, FirstGreatest value L order ∧
      L.foldl (fun best order => better best (value order) order) none =
        some (value order, order) := by
  induction L using List.reverseRecOn with
  | nil => exact absurd rfl hne
  | append_singleton L next ih =>
      rw [List.foldl_append]
      by_cases hL : L = []
      · subst hL
        exact ⟨next, ⟨[], [], rfl, by simp, by simp⟩, rfl⟩
      · obtain ⟨order, hbest, hfold⟩ := ih hL
        rw [hfold]
        by_cases hnext : value next > value order
        · refine ⟨next, ⟨L, [], rfl, ?_, by simp⟩, ?_⟩
          · intro y hy
            exact Int.lt_of_le_of_lt (hbest.le hy) hnext
          · simp [better, hnext]
        · obtain ⟨front, back, rfl, hfront, hback⟩ := hbest
          refine ⟨order, ⟨front, back ++ [next], by simp, hfront, ?_⟩, ?_⟩
          · intro y hy
            rcases List.mem_append.1 hy with hy | hy
            · exact hback y hy
            · rw [List.mem_singleton.1 hy]
              exact Int.not_lt.1 hnext
          · simp [better, hnext]

/-- A list that does not pass everywhere has a first element that does not pass. -/
theorem exists_first_not {P : α → Prop} (h : ∃ y ∈ L, ¬P y) :
    ∃ front y back, L = front ++ y :: back ∧ (∀ z ∈ front, P z) ∧ ¬P y := by
  classical
  cases hfind : L.find? fun y => decide ¬P y with
  | none =>
      obtain ⟨y, hy, hnot⟩ := h
      exact absurd (List.find?_eq_none.1 hfind y hy) (by simpa using hnot)
  | some y =>
      obtain ⟨hnot, front, back, rfl, hfront⟩ := List.find?_eq_some_iff_append.1 hfind
      refine ⟨front, y, back, rfl, ?_, by simpa using hnot⟩
      intro z hz
      simpa using hfront z hz

/-! ### Trying orders -/

section Tries

variable {value : Phases → Int} {front back L : List Phases} {order : Phases} {failure : Failure}

theorem outcome_tryOrder (best : Option (Int × Phases)) (order : Phases) :
    (tryOrder wiring fuel image seed best order).outcome =
      (wiring.signal fuel image order seed).outcome.map (better best · order) := by
  rw [tryOrder, Logged.outcome_bind]
  cases (wiring.signal fuel image order seed).outcome with
  | error failure => rfl
  | ok signal => rfl

/-- Orders that all give a signal are compared one after another. -/
theorem outcome_tries_ok
    (h : ∀ order ∈ L, (wiring.signal fuel image order seed).outcome = .ok (value order))
    (best : Option (Int × Phases)) :
    (L.foldlM (tryOrder wiring fuel image seed) best).outcome =
      .ok (L.foldl (fun best order => better best (value order) order) best) := by
  induction L generalizing best with
  | nil => rfl
  | cons order L ih =>
      obtain ⟨horder, hL⟩ := List.forall_mem_cons.1 h
      rw [List.foldlM_cons, List.foldl_cons]
      refine Logged.outcome_bind_eq_ok.2 ⟨_, ?_, ih hL _⟩
      rw [outcome_tryOrder, horder]
      rfl

/-- Orders that all give a signal are noted one after another, each behind what its machines
note. -/
theorem mem_log_tries {e : Event} {best : Option (Int × Phases)}
    (h : ∀ order ∈ L, (wiring.signal fuel image order seed).outcome = .ok (value order)) :
    e ∈ (L.foldlM (tryOrder wiring fuel image seed) best).log ↔
      ∃ order ∈ L, e ∈ (wiring.signal fuel image order seed).log ∨
        e = .tried order (value order) := by
  induction L generalizing best with
  | nil => simp
  | cons order L ih =>
      obtain ⟨horder, hL⟩ := List.forall_mem_cons.1 h
      have htry : tryOrder wiring fuel image seed best order =
          ⟨(wiring.signal fuel image order seed).log ++ [.tried order (value order)],
            .ok (better best (value order) order)⟩ :=
        Logged.bind_of_ok horder _
      rw [List.foldlM_cons, htry, Logged.bind_of_ok rfl]
      simp only [List.mem_append, List.mem_singleton, ih hL, List.exists_mem_cons_iff]

/-- The first order that fails ends the search. -/
theorem outcome_tries_error
    (hfront : ∀ order ∈ front, ∃ value, (wiring.signal fuel image order seed).outcome = .ok value)
    (herror : (wiring.signal fuel image order seed).outcome = .error failure)
    (best : Option (Int × Phases)) :
    ((front ++ order :: back).foldlM (tryOrder wiring fuel image seed) best).outcome =
      .error failure := by
  choose! value hfront using hfront
  rw [List.foldlM_append]
  refine Logged.outcome_bind_eq_error.2 (.inr ⟨_, outcome_tries_ok hfront best, ?_⟩)
  rw [List.foldlM_cons]
  refine Logged.outcome_bind_eq_error.2 (.inl ?_)
  rw [outcome_tryOrder, herror]
  rfl

/-- Where the trying ends well, every order tried gave a signal. -/
theorem exists_values_of_tries {best : Option (Int × Phases)} {result : Option (Int × Phases)}
    (h : (L.foldlM (tryOrder wiring fuel image seed) best).outcome = .ok result) :
    ∀ order ∈ L, ∃ value, (wiring.signal fuel image order seed).outcome = .ok value := by
  by_contra hnot
  push Not at hnot
  obtain ⟨order, horder, hfails⟩ := hnot
  obtain ⟨front, order, back, rfl, hfront, hfails⟩ := exists_first_not
    (P := fun order => ∃ value, (wiring.signal fuel image order seed).outcome = .ok value)
    ⟨order, horder, by simpa using hfails⟩
  cases herror : (wiring.signal fuel image order seed).outcome with
  | ok value => exact hfails ⟨value, herror⟩
  | error failure =>
      rw [outcome_tries_error hfront herror] at h
      cases h

/-! ### The search -/

/-- The search tries the arrangements of the phases and ends with what is kept then. -/
theorem bestOrder_eq (wiring : Wiring) (fuel : Nat) (image : List Int) (seed : Int)
    (hphases : phases ≠ []) :
    bestOrder wiring fuel image phases seed =
      (orders phases).foldlM (tryOrder wiring fuel image seed) none >>= fun
        | some best => return best
        | none => Logged.fail (.error .nothingToTry) := by
  rw [← foldOrdersM_eq]
  exact if_neg hphases

/-- Where all orders give a signal, what is kept does not depend on the bound. -/
theorem bestOrder_of_ok (wiring : Wiring) (image : List Int) (seed : Int) (hphases : phases ≠ [])
    (value : Phases → Int) :
    ∃ order, FirstGreatest value (orders phases) order ∧ ∀ fuel,
      (∀ order, order.Perm phases →
        (wiring.signal fuel image order seed).outcome = .ok (value order)) →
      (bestOrder wiring fuel image phases seed).outcome = .ok (value order, order) := by
  obtain ⟨others, hothers⟩ := exists_orders_eq_cons phases
  have hne : orders phases ≠ [] := by simp [hothers]
  obtain ⟨order, hbest, hfold⟩ := foldl_better value hne
  refine ⟨order, hbest, ?_⟩
  intro fuel h
  rw [bestOrder_eq wiring fuel image seed hphases]
  refine Logged.outcome_bind_eq_ok.2 ⟨some (value order, order), ?_, rfl⟩
  rw [← hfold]
  exact outcome_tries_ok (fun order horder => h order (mem_orders_iff.1 horder)) none

theorem bestOrder_of_error (hphases : phases ≠ [])
    (horders : orders phases = front ++ order :: back)
    (hfront : ∀ order ∈ front, ∃ value, (wiring.signal fuel image order seed).outcome = .ok value)
    (herror : (wiring.signal fuel image order seed).outcome = .error failure) :
    (bestOrder wiring fuel image phases seed).outcome = .error failure := by
  rw [bestOrder_eq wiring fuel image seed hphases, horders]
  exact Logged.outcome_bind_eq_error.2 (.inl (outcome_tries_error hfront herror none))

/-- A search that finds something has tried every arrangement, and each gave a signal. -/
theorem exists_values_of_bestOrder {best : Int × Phases}
    (h : (bestOrder wiring fuel image phases seed).outcome = .ok best) :
    phases ≠ [] ∧ ∃ value : Phases → Int, ∀ order, order.Perm phases →
      (wiring.signal fuel image order seed).outcome = .ok (value order) := by
  have hphases : phases ≠ [] := by
    intro hnil
    rw [bestOrder, if_pos hnil] at h
    cases h
  rw [bestOrder_eq wiring fuel image seed hphases] at h
  obtain ⟨result, htries, -⟩ := Logged.outcome_bind_eq_ok.1 h
  have hvalues : ∀ order, order.Perm phases →
      ∃ value, (wiring.signal fuel image order seed).outcome = .ok value := by
    intro order horder
    exact exists_values_of_tries htries order (mem_orders_iff.2 horder)
  choose! value hvalue using hvalues
  exact ⟨hphases, value, hvalue⟩

/-- What a search notes if every arrangement gives a signal. -/
theorem mem_log_bestOrder {e : Event} (hphases : phases ≠ [])
    (h : ∀ order, order.Perm phases →
      (wiring.signal fuel image order seed).outcome = .ok (value order)) :
    e ∈ (bestOrder wiring fuel image phases seed).log ↔
      ∃ order, order.Perm phases ∧ (e ∈ (wiring.signal fuel image order seed).log ∨
        e = .tried order (value order)) := by
  have hall : ∀ order ∈ orders phases,
      (wiring.signal fuel image order seed).outcome = .ok (value order) :=
    fun order horder => h order (mem_orders_iff.1 horder)
  have hlast : ∀ result : Option (Int × Phases),
      (match result with
        | some best => (return best : Logged Failure (Int × Phases))
        | none => Logged.fail (.error .nothingToTry)).log = [] := by
    intro result
    cases result <;> rfl
  rw [bestOrder_eq wiring fuel image seed hphases, Logged.bind_of_ok (outcome_tries_ok hall none)]
  dsimp only
  rw [hlast, List.append_nil, mem_log_tries hall]
  simp only [mem_orders_iff]

/-- **A search among what a search found finds the same.** -/
theorem bestOrder_again {signal : Int}
    (h : (bestOrder wiring fuel image phases seed).outcome = .ok (signal, order)) :
    order.Perm phases ∧ (wiring.signal fuel image order seed).outcome = .ok signal ∧
      (bestOrder wiring fuel image order seed).outcome = .ok (signal, order) := by
  obtain ⟨hphases, value, hvalue⟩ := exists_values_of_bestOrder h
  obtain ⟨found, hfound, hfinds⟩ := bestOrder_of_ok wiring image seed hphases value
  obtain ⟨rfl, rfl⟩ := Prod.mk.inj (Except.ok.inj (h.symm.trans (hfinds fuel hvalue)))
  have hperm := mem_orders_iff.1 hfound.mem
  have hne : order ≠ [] := by
    intro hnil
    rw [hnil] at hperm
    exact hphases hperm.symm.eq_nil
  -- the order found is the first of its own arrangements, and none of them gives more
  obtain ⟨again, hagain, hfinds'⟩ := bestOrder_of_ok wiring image seed hne value
  have hle := hfound.le (mem_orders_iff.2 ((mem_orders_iff.1 hagain.mem).trans hperm))
  obtain ⟨others, hothers⟩ := exists_orders_eq_cons order
  rw [hothers] at hagain
  obtain rfl := hagain.eq_head hle
  exact ⟨hperm, hvalue _ hperm,
    hfinds' fuel fun other hother => hvalue other (hother.trans hperm)⟩

/-- The order that was found, by itself or searched among, notes nothing new. -/
theorem log_subset_of_again {signal : Int}
    (h : (bestOrder wiring fuel image phases seed).outcome = .ok (signal, order)) :
    (wiring.signal fuel image order seed).log ⊆ (bestOrder wiring fuel image phases seed).log ∧
      (bestOrder wiring fuel image order seed).log ⊆
        (bestOrder wiring fuel image phases seed).log := by
  obtain ⟨hphases, value, hvalue⟩ := exists_values_of_bestOrder h
  obtain ⟨hperm, -, hagain⟩ := bestOrder_again h
  obtain ⟨hne, -⟩ := exists_values_of_bestOrder hagain
  constructor
  · intro e he
    exact (mem_log_bestOrder hphases hvalue).2 ⟨order, hperm, .inl he⟩
  · intro e he
    obtain ⟨other, hother, he⟩ :=
      (mem_log_bestOrder hne fun other hother => hvalue other (hother.trans hperm)).1 he
    exact (mem_log_bestOrder hphases hvalue).2 ⟨other, hother.trans hperm, he⟩

end Tries

/-! ### Where the runs come to rest -/

/-- With the phases in this order an amplifier ends in this way. -/
def Wiring.Gives (wiring : Wiring) (image : List Int) (seed : Int) (order : Phases)
    (outcome : Except Failure Int) : Prop :=
  Settles (fun fuel => wiring.signal fuel image order seed) outcome

/-- The search among these phases ends in this way. -/
def Wiring.Finds (wiring : Wiring) (image : List Int) (seed : Int) (phases : Phases)
    (outcome : Except Failure (Int × Phases)) : Prop :=
  Settles (fun fuel => bestOrder wiring fuel image phases seed) outcome

/-- The greatest signal of all orders, and the first order that gives it. An order of places is an
order of the phases, equal phases told apart; the first is so lexicographically. -/
structure Wiring.IsBest (wiring : Wiring) (image : List Int) (seed : Int) (phases : Phases)
    (signal : Int) (order : Phases) : Prop where
  /-- The order is one of the phases given. -/
  perm : order.Perm phases
  /-- It gives the signal. -/
  gives : wiring.Gives image seed order (.ok signal)
  /-- No order gives more. -/
  greatest : ∀ other, other.Perm phases →
    ∃ value, wiring.Gives image seed other (.ok value) ∧ value ≤ signal
  /-- Every earlier order gives less. -/
  first : ∃ places : List (Fin phases.length), places.Perm (List.finRange phases.length) ∧
    order = places.map phases.get ∧
    ∀ earlier, earlier.Perm (List.finRange phases.length) → earlier < places →
      ∃ value, wiring.Gives image seed (earlier.map phases.get) (.ok value) ∧ value < signal

/-- The failure of the first order that fails, lexicographically by places. -/
def Wiring.IsFirstFailure (wiring : Wiring) (image : List Int) (seed : Int) (phases : Phases)
    (failure : Failure) : Prop :=
  ∃ places : List (Fin phases.length), places.Perm (List.finRange phases.length) ∧
    wiring.Gives image seed (places.map phases.get) (.error failure) ∧
    ∀ earlier, earlier.Perm (List.finRange phases.length) → earlier < places →
      ∃ value, wiring.Gives image seed (earlier.map phases.get) (.ok value)

/-- Of orders that all come to an end, what each ends with is known within one bound. -/
theorem exists_bound {L : List Phases}
    (h : ∀ order ∈ L, ∃ outcome, wiring.Gives image seed order outcome) :
    ∃ bound, ∀ fuel, bound ≤ fuel → ∀ order ∈ L, ∀ outcome,
      wiring.Gives image seed order outcome →
      (wiring.signal fuel image order seed).outcome = outcome := by
  induction L with
  | nil => exact ⟨0, by simp⟩
  | cons order L ih =>
      obtain ⟨⟨outcome, hgives⟩, hL⟩ := List.forall_mem_cons.1 h
      obtain ⟨bound, hbound⟩ := ih hL
      obtain ⟨bound', hbound'⟩ := hgives.2
      refine ⟨max bound bound', ?_⟩
      intro fuel hle other hother outcome' hgives'
      rcases List.mem_cons.1 hother with rfl | hother
      · rw [← hgives.unique hgives']
        exact hbound' fuel (by omega)
      · exact hbound fuel (by omega) other hother outcome' hgives'

/-- In a sorted list what is smaller than an element stands before it. -/
theorem mem_front_of_lt {n : Nat} {front back : List (List (Fin n))} {p q : List (Fin n)}
    (hsorted : (front ++ p :: back).Pairwise (· < ·)) (hq : q ∈ front ++ p :: back) (hlt : q < p) :
    q ∈ front := by
  rcases List.mem_append.1 hq with hq | hq
  · exact hq
  · obtain ⟨-, hsorted, -⟩ := List.pairwise_append.1 hsorted
    rcases List.mem_cons.1 hq with rfl | hq
    · exact absurd hlt (List.lt_irrefl q)
    · exact absurd hlt (List.lt_asymm ((List.pairwise_cons.1 hsorted).1 q hq))

theorem perm_of_places {places : List (Fin phases.length)}
    (h : places.Perm (List.finRange phases.length)) : (places.map phases.get).Perm phases := by
  have hmap := h.map phases.get
  rwa [List.map_get_finRange] at hmap

/-- Where every order gives a signal, the search finds the best. -/
theorem exists_best (hphases : phases ≠ [])
    (h : ∀ order, order.Perm phases → ∃ value, wiring.Gives image seed order (.ok value)) :
    ∃ signal order, wiring.Finds image seed phases (.ok (signal, order)) ∧
      wiring.IsBest image seed phases signal order := by
  choose! value hvalue using h
  obtain ⟨order, hbest, hfinds⟩ := bestOrder_of_ok wiring image seed hphases value
  have horder := mem_orders_iff.1 hbest.mem
  refine ⟨value order, order, ⟨by simp, ?_⟩, ⟨horder, hvalue order horder, ?_, ?_⟩⟩
  · obtain ⟨bound, hbound⟩ := exists_bound (L := orders phases) fun other hother =>
      ⟨_, hvalue other (mem_orders_iff.1 hother)⟩
    refine ⟨bound, ?_⟩
    intro fuel hle
    refine hfinds fuel fun other hother => ?_
    exact hbound fuel hle other (mem_orders_iff.2 hother) _ (hvalue other hother)
  · intro other hother
    exact ⟨value other, hvalue other hother, hbest.le (mem_orders_iff.2 hother)⟩
  · rw [orders_eq_map] at hbest
    obtain ⟨places, rfl, front, back, hplaces, hfront, -⟩ := hbest.of_map
    have hsorted := pairwise_orders phases.length
    have hmem : places ∈ orders (List.finRange phases.length) := by simp [hplaces]
    refine ⟨places, mem_orders_iff.1 hmem, rfl, ?_⟩
    intro earlier hearlier hlt
    have hin := mem_orders_iff.2 hearlier
    rw [hplaces] at hsorted hin
    exact ⟨_, hvalue _ (perm_of_places hearlier), hfront _ (mem_front_of_lt hsorted hin hlt)⟩

/-- Where an order fails, the search fails as the first that does. -/
theorem exists_first_failure (hphases : phases ≠ [])
    (hruns : ∀ order, order.Perm phases → ∃ outcome, wiring.Gives image seed order outcome)
    (h : ∃ order failure, order.Perm phases ∧ wiring.Gives image seed order (.error failure)) :
    ∃ failure, wiring.Finds image seed phases (.error failure) ∧
      wiring.IsFirstFailure image seed phases failure := by
  have hfails : ∃ places ∈ orders (List.finRange phases.length),
      ¬∃ value, wiring.Gives image seed (places.map phases.get) (.ok value) := by
    obtain ⟨order, failure, horder, hgives⟩ := h
    rw [← mem_orders_iff, orders_eq_map] at horder
    obtain ⟨places, hplaces, rfl⟩ := List.mem_map.1 horder
    refine ⟨places, hplaces, ?_⟩
    intro hvalue
    obtain ⟨value, hvalue⟩ := hvalue
    cases hgives.unique hvalue
  obtain ⟨front, places, back, hplaces, hfront, hnot⟩ := exists_first_not hfails
  have hmem : places ∈ orders (List.finRange phases.length) := by simp [hplaces]
  have hperm := mem_orders_iff.1 hmem
  obtain ⟨outcome, hgives⟩ := hruns _ (perm_of_places hperm)
  cases outcome with
  | ok value => exact absurd ⟨value, hgives⟩ hnot
  | error failure =>
      refine ⟨failure, ⟨?_, ?_⟩, places, hperm, hgives, ?_⟩
      · intro hend
        exact hgives.1 (congrArg _ (Except.error.inj hend))
      · obtain ⟨bound, hbound⟩ := exists_bound (L := orders phases) fun other hother =>
          hruns other (mem_orders_iff.1 hother)
        refine ⟨bound, ?_⟩
        intro fuel hle
        have horders := orders_eq_map phases
        rw [hplaces, List.map_append, List.map_cons] at horders
        refine bestOrder_of_error hphases horders ?_ ?_
        · intro order horder
          have hin : order ∈ orders phases := by simp [horders, horder]
          obtain ⟨earlier, hearlier, rfl⟩ := List.mem_map.1 horder
          obtain ⟨value, hvalue⟩ := hfront earlier hearlier
          exact ⟨value, hbound fuel hle _ hin _ hvalue⟩
        · have hin : places.map phases.get ∈ orders phases := by simp [horders]
          exact hbound fuel hle _ hin _ hgives
      · intro earlier hearlier hlt
        have hsorted := pairwise_orders phases.length
        have hin := mem_orders_iff.2 hearlier
        rw [hplaces] at hsorted hin
        exact hfront earlier (mem_front_of_lt hsorted hin hlt)

/-- If all orders come to an end within one bound, what they end with can be looked up. -/
theorem exists_gives (wiring : Wiring) (fuel : Nat) (image : List Int) (seed : Int)
    (phases : Phases) (outcomes : List (Except Failure Int))
    (h : (orders phases).map (fun order => (wiring.signal fuel image order seed).outcome) =
      outcomes)
    (hend : .error .unfinished ∉ outcomes) {order : Phases} (horder : order.Perm phases) :
    ∃ outcome ∈ outcomes, wiring.Gives image seed order outcome := by
  have hmem : (wiring.signal fuel image order seed).outcome ∈ outcomes := by
    rw [← h]
    exact List.mem_map.2 ⟨order, mem_orders_iff.2 horder, rfl⟩
  refine ⟨_, hmem, settles_signal_iff.2 ⟨?_, fuel, rfl⟩⟩
  intro hunfinished
  exact hend (hunfinished ▸ hmem)

/-- Two searches among the same phases find the same signal. -/
theorem Wiring.IsBest.signal_le {permuted order order' : Phases} {signal signal' : Int}
    (h : wiring.IsBest image seed phases signal order)
    (h' : wiring.IsBest image seed permuted signal' order') (hperm : permuted.Perm phases) :
    signal' ≤ signal := by
  obtain ⟨value, hvalue, hle⟩ := h.greatest order' (h'.perm.trans hperm)
  obtain rfl := Except.ok.inj (h'.gives.unique hvalue)
  exact hle

end CellMachine.Amplifier
