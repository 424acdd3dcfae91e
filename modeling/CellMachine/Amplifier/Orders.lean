/-!
# Orders of a list

`orders xs` lists every way to arrange the elements of `xs`, equal elements told apart by their
places: the orders that begin with the first element come first, then those that begin with the
second, and so on, and the same again for what follows.

There are many orders, and a search may end at the first of them. `foldOrdersM` visits them one
after another without listing them; `foldOrdersM_eq` says that it visits `orders`.
-/

namespace CellMachine

variable {α β : Type}

/-- Each element with the others, in order. -/
def picks : List α → List (α × List α)
  | [] => []
  | x :: xs => (x, xs) :: (picks xs).map fun (y, ys) => (y, x :: ys)

/-- The arrangements of `count` elements of a list. -/
def ordersOf : Nat → List α → List (List α)
  | 0, _ => [[]]
  | count + 1, xs => (picks xs).flatMap fun (x, rest) => (ordersOf count rest).map (x :: ·)

/-- The arrangements of a list. -/
def orders (xs : List α) : List (List α) := ordersOf xs.length xs

/-- Visits the arrangements that begin with `chosen` (last element first) and go on with `count`
elements of a list. -/
def visitOrders {m : Type → Type} [Monad m] (f : β → List α → m β) :
    Nat → List α → List α → β → m β
  | 0, chosen, _, b => f b chosen.reverse
  | count + 1, chosen, xs, b =>
    (picks xs).foldlM (fun b (x, rest) => visitOrders f count (x :: chosen) rest b) b

/-- Folds over the arrangements of a list, one after another. -/
def foldOrdersM {m : Type → Type} [Monad m] (f : β → List α → m β) (b : β) (xs : List α) : m β :=
  visitOrders f xs.length [] xs b

theorem visitOrders_eq {m : Type → Type} [Monad m] [LawfulMonad m] (f : β → List α → m β)
    (count : Nat) (chosen xs : List α) (b : β) :
    visitOrders f count chosen xs b =
      (ordersOf count xs).foldlM (fun b order => f b (chosen.reverse ++ order)) b := by
  induction count generalizing chosen xs b with
  | zero => simp [visitOrders, ordersOf]
  | succ count ih =>
    have hflat : ∀ (ps : List (α × List α)) (b : β),
        ps.foldlM (fun b (x, rest) => visitOrders f count (x :: chosen) rest b) b =
          (ps.flatMap fun (x, rest) => (ordersOf count rest).map (x :: ·)).foldlM
            (fun b order => f b (chosen.reverse ++ order)) b := by
      intro ps
      induction ps with
      | nil => intro b; rfl
      | cons p ps ihp =>
        intro b
        simp only [List.foldlM_cons, List.flatMap_cons, List.foldlM_append, List.foldlM_map]
        rw [ih]
        simp only [List.reverse_cons, List.append_assoc, List.singleton_append]
        exact bind_congr ihp
    exact hflat (picks xs) b

/-- The arrangements visited are those listed, in the order listed. -/
theorem foldOrdersM_eq {m : Type → Type} [Monad m] [LawfulMonad m] (f : β → List α → m β) (b : β)
    (xs : List α) : foldOrdersM f b xs = (orders xs).foldlM f b := by
  simp [foldOrdersM, orders, visitOrders_eq]

/-- Picking takes one element out and keeps the others. -/
theorem perm_of_mem_picks {x : α} {xs rest : List α} (h : (x, rest) ∈ picks xs) :
    (x :: rest).Perm xs := by
  induction xs generalizing rest with
  | nil => simp [picks] at h
  | cons y ys ih =>
    simp only [picks, List.mem_cons, List.mem_map, Prod.mk.injEq, Prod.exists] at h
    rcases h with ⟨rfl, rfl⟩ | ⟨z, zs, hz, rfl, rfl⟩
    · exact .refl _
    · exact (List.Perm.swap y z zs).trans ((ih hz).cons y)

end CellMachine
