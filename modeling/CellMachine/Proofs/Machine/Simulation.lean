import Mathlib.Data.List.Forall2
import CellMachine.Proofs.Machine.History

/-!
# CellMachine.Proofs.Machine.Simulation

**Two machines side by side.** Where a relation between machines is kept by single attempts and by
the other operations (`Simulates`), it is kept by whole runs and by whole histories, and the two
machines give the same replies throughout (`Simulates.trail`). What they note is left out here.
-/

namespace CellMachine.Machine

section Rel

variable {α β γ δ : Type} {R : α → β → Prop} {S : γ → δ → Prop} {x : Option α} {y : Option β}

theorem rel_bind {f : α → Option γ} {g : β → Option δ} (h : Option.Rel R x y)
    (hf : ∀ a b, R a b → Option.Rel S (f a) (g b)) : Option.Rel S (x >>= f) (y >>= g) := by
  cases h with
  | none => exact .none
  | some hab => exact hf _ _ hab

theorem rel_map {f : α → γ} {g : β → δ} (h : Option.Rel R x y)
    (hf : ∀ a b, R a b → S (f a) (g b)) : Option.Rel S (x.map f) (y.map g) := by
  cases h with
  | none => exact .none
  | some hab => exact .some (hf _ _ hab)

/-- Where both come to something, what is known of it may be used. -/
theorem rel_of_eq {S : α → β → Prop} (h : Option.Rel R x y)
    (hS : ∀ a b, x = some a → y = some b → R a b → S a b) : Option.Rel S x y := by
  cases h with
  | none => exact .none
  | some hab => exact .some (hS _ _ rfl rfl hab)

end Rel

/-- Two computations end in the same fault, or with values so related. -/
def SameOutcome {α β : Type} (R : α → β → Prop) (x : Except Fault α) (y : Except Fault β) : Prop :=
  (∃ fault, x = .error fault ∧ y = .error fault) ∨ ∃ a b, x = .ok a ∧ y = .ok b ∧ R a b

/-- Machines that are so related cannot be told apart in one operation, and stay so related. -/
structure Simulates (R : Machine → Machine → Prop) : Prop where
  status : ∀ {m m'}, R m m' → m'.status = m.status
  ip : ∀ {m m'}, R m m' → m'.ip = m.ip
  output : ∀ {m m'}, R m m' → m'.output = m.output
  read : ∀ {m m'}, R m m' → ∀ a, m'.memory.read a = m.memory.read a
  withStatus : ∀ {m m'}, R m m' → ∀ status, R { m with status } { m' with status }
  feed : ∀ {m m'}, R m m' → ∀ values, R (m.feed values) (m'.feed values)
  drain : ∀ {m m'}, R m m' → R m.drain.2 m'.drain.2
  step : ∀ {m m'}, R m m' → SameOutcome R m.step.outcome m'.step.outcome
  write : ∀ {m m'}, R m m' → ∀ a v,
    SameOutcome (fun memory memory' => R { m with memory } { m' with memory := memory' })
      (m.memory.write a v).outcome (m'.memory.write a v).outcome

namespace Simulates

variable {R : Machine → Machine → Prop} {m m' : Machine}

/-- What two runs come to: they end alike, and their machines are so related. -/
def Runs (R : Machine → Machine → Prop) (r r' : Run) : Prop :=
  r.outcome = r'.outcome ∧ R r.machine r'.machine

/-- What two operations come to: they give the same reply, and leave machines so related. -/
def Replies (R : Machine → Machine → Prop) (x x' : Handled) : Prop :=
  x.reply = x'.reply ∧ R x.machine x'.machine

theorem proceed (hR : Simulates R) (h : R m m') (fuel : Nat) (log log' : Array Event) :
    Option.Rel (Runs R) (Machine.proceed fuel m log) (Machine.proceed fuel m' log') := by
  induction fuel generalizing m m' log log' with
  | zero => exact .none
  | succ fuel ih =>
      obtain ⟨fault, hstep, hstep'⟩ | ⟨next, next', hstep, hstep', hnext⟩ := hR.step h
      · rw [proceed_of_error hstep, proceed_of_error hstep']
        exact .some ⟨rfl, hR.withStatus h .faulted⟩
      · rw [proceed_of_ok hstep, proceed_of_ok hstep', hR.status hnext]
        by_cases hrun : next.status = .running
        · rw [if_pos hrun, if_pos hrun]
          exact ih hnext _ _
        · rw [if_neg hrun, if_neg hrun]
          exact .some ⟨rfl, hnext⟩

theorem run (hR : Simulates R) (h : R m m') (fuel : Nat) :
    Option.Rel (Runs R) (m.run fuel) (m'.run fuel) := by
  have hstatus := hR.status h
  by_cases hm : m.Live
  · have hm' : m'.Live := by rwa [Live, hstatus]
    rw [run_of_live hm, run_of_live hm']
    exact hR.proceed (hR.withStatus h .running) fuel _ _
  · rcases not_live_iff.1 hm with hhalt | hfault
    · rw [run_of_halted hhalt, run_of_halted (hstatus.trans hhalt)]
      exact .some ⟨rfl, h⟩
    · rw [run_of_faulted hfault, run_of_faulted (hstatus.trans hfault), hR.ip h]
      exact .some ⟨rfl, h⟩

theorem handle (hR : Simulates R) (h : R m m') (fuel : Nat) (op : Operation) :
    Option.Rel (Replies R) (m.handle fuel op) (m'.handle fuel op) := by
  cases op with
  | feed values => exact .some ⟨rfl, hR.feed h values⟩
  | drain => exact .some ⟨by rw [drain_fst, drain_fst, hR.output h], hR.drain h⟩
  | run => exact rel_map (hR.run h fuel) fun r r' hsame => ⟨congrArg Reply.ran hsame.1, hsame.2⟩
  | step =>
      obtain ⟨fault, hstep, hstep'⟩ | ⟨next, next', hstep, hstep', hnext⟩ := hR.step h
      · rw [handle_step_error hstep, handle_step_error hstep']
        exact .some ⟨rfl, h⟩
      · rw [handle_step_ok hstep, handle_step_ok hstep']
        exact .some ⟨rfl, hnext⟩
  | read address => exact .some ⟨congrArg Reply.read (hR.read h address).symm, h⟩
  | write address value =>
      obtain ⟨fault, hwrite, hwrite'⟩ | ⟨memory, memory', hwrite, hwrite', hnext⟩ :=
        hR.write h address value
      · rw [handle_write_error hwrite, handle_write_error hwrite']
        exact .some ⟨rfl, h⟩
      · rw [handle_write_ok hwrite, handle_write_ok hwrite']
        exact .some ⟨rfl, hnext⟩

/-- Machines that are so related give the same replies to a whole history. -/
theorem trail (hR : Simulates R) (h : R m m') (fuel : Nat) (history : List Operation) :
    Option.Rel (List.Forall₂ (Replies R)) (m.trail fuel history) (m'.trail fuel history) := by
  induction history generalizing m m' with
  | nil => exact .some .nil
  | cons op history ih =>
      apply rel_bind (hR.handle h fuel op)
      intro x x' hsame
      apply rel_bind (ih hsame.2)
      intro later later' hlater
      exact .some (.cons hsame hlater)

end Simulates

end CellMachine.Machine
