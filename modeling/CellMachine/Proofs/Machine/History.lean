import CellMachine.Proofs.Machine.Rest

/-!
# CellMachine.Proofs.Machine.History

**Histories.** Beside the requests of a session, a caller may attempt single instructions and read
and write cells. A history is a list of such operations; its *trail* tells what came of each one
and the machine it left. An operation that faults is answered, and the history goes on.

Two of the operations attempt instructions: a step attempts one, a run as many as it takes
(`handle_cases`). `tries` lists the machines that make these attempts.
-/

namespace CellMachine.Machine

/-- What may be done with a machine. -/
inductive Operation where
  /-- Give it more input. -/
  | feed (values : List Int)
  /-- Take its output. -/
  | drain
  /-- Run it until it rests. -/
  | run
  /-- Attempt one instruction. -/
  | step
  /-- Read a cell. -/
  | read (address : Int)
  /-- Write a cell. -/
  | write (address value : Int)
  deriving DecidableEq, Repr

/-- What an operation gives back. -/
inductive Reply where
  | fed
  | drained (values : List Int)
  | ran (outcome : Except Fault Status)
  | stepped (outcome : Except Fault Unit)
  | read (outcome : Except Fault Int)
  | wrote (outcome : Except Fault Unit)

/-- What came of one operation. -/
structure Handled where
  /-- What it gave back. -/
  reply : Reply
  /-- What was noted in it. -/
  log : List Event
  /-- The machine it left. -/
  machine : Machine

/-- Does one operation, a run within a bound. -/
def handle (fuel : Nat) (m : Machine) : Operation → Option Handled
  | .feed values => some ⟨.fed, [], m.feed values⟩
  | .drain => some ⟨.drained m.drain.1, [], m.drain.2⟩
  | .run => (m.run fuel).map fun r => ⟨.ran r.outcome, r.log, r.machine⟩
  | .step =>
    match m.step with
    | ⟨log, .error fault⟩ => some ⟨.stepped (.error fault), log, m⟩
    | ⟨log, .ok next⟩ => some ⟨.stepped (.ok ()), log, next⟩
  | .read address => some ⟨.read (m.memory.read address), [], m⟩
  | .write address value =>
    match m.memory.write address value with
    | ⟨log, .error fault⟩ => some ⟨.wrote (.error fault), log, m⟩
    | ⟨log, .ok memory⟩ => some ⟨.wrote (.ok ()), log, { m with memory }⟩

/-- What comes of the operations of a history, one after another. -/
def trail (fuel : Nat) (m : Machine) : List Operation → Option (List Handled)
  | [] => some []
  | op :: history => do
    let handled ← m.handle fuel op
    let later ← handled.machine.trail fuel history
    return handled :: later

variable {m next : Machine} {fuel : Nat} {op : Operation}

theorem handle_step_error {fault : Fault} (h : m.step.outcome = .error fault) :
    m.handle fuel .step = some ⟨.stepped (.error fault), m.step.log, m⟩ := by
  rcases hm : m.step with ⟨log, fault' | next⟩ <;> simp_all [handle]

theorem handle_step_ok (h : m.step.outcome = .ok next) :
    m.handle fuel .step = some ⟨.stepped (.ok ()), m.step.log, next⟩ := by
  rcases hm : m.step with ⟨log, fault | next'⟩ <;> simp_all [handle]

theorem handle_write_error {fault : Fault} {address value : Int}
    (h : (m.memory.write address value).outcome = .error fault) :
    m.handle fuel (.write address value) =
      some ⟨.wrote (.error fault), (m.memory.write address value).log, m⟩ := by
  rcases hwrite : m.memory.write address value with ⟨log, fault' | memory⟩ <;>
    simp_all [handle]

theorem handle_write_ok {memory : Memory} {address value : Int}
    (h : (m.memory.write address value).outcome = .ok memory) :
    m.handle fuel (.write address value) =
      some ⟨.wrote (.ok ()), (m.memory.write address value).log, { m with memory }⟩ := by
  rcases hwrite : m.memory.write address value with ⟨log, fault | memory'⟩ <;>
    simp_all [handle]

theorem trail_cons_eq_some {history : List Operation} {handled : List Handled}
    (h : m.trail fuel (op :: history) = some handled) :
    ∃ x later, m.handle fuel op = some x ∧ x.machine.trail fuel history = some later ∧
      handled = x :: later := by
  obtain ⟨x, hx, h⟩ := Option.bind_eq_some_iff.1 h
  obtain ⟨later, hlater, h⟩ := Option.bind_eq_some_iff.1 h
  exact ⟨x, later, hx, hlater, (Option.some.inj h).symm⟩

/-! ### The attempts of a history -/

/-- The machines that make the attempts of a run, one after another. -/
def tries : Nat → Machine → List Machine
  | 0, _ => []
  | fuel + 1, m =>
    m ::
      match m.step.outcome with
      | .error _ => []
      | .ok next => if next.status = .running then tries fuel next else []

/-- The machines that make the attempts of an operation. -/
def Operation.tries (fuel : Nat) (m : Machine) : Operation → List Machine
  | .run => if m.status = .halted ∨ m.status = .faulted then [] else m.awake.tries fuel
  | .step => [m]
  | .feed _ | .drain | .read _ | .write _ _ => []

/-- The machines that make the attempts of a history. -/
def triesOf (fuel : Nat) (m : Machine) : List Operation → List Machine
  | [] => []
  | op :: history =>
    op.tries fuel m ++
      match m.handle fuel op with
      | none => []
      | some handled => handled.machine.triesOf fuel history

/-- What an operation notes beside its attempts: a write may bring a cell into being. -/
def Operation.aside (m : Machine) : Operation → List Event
  | .write address value => (m.memory.write address value).log
  | .feed _ | .drain | .run | .step | .read _ => []

theorem tries_of_error {fault : Fault} (h : m.step.outcome = .error fault) (fuel : Nat) :
    m.tries (fuel + 1) = [m] := by
  rw [tries, h]

theorem tries_of_ok (h : m.step.outcome = .ok next) (fuel : Nat) :
    m.tries (fuel + 1) = m :: if next.status = .running then next.tries fuel else [] := by
  rw [tries, h]

theorem tries_run_of_live (h : m.Live) (fuel : Nat) :
    Operation.run.tries fuel m = m.awake.tries fuel :=
  if_neg (not_or.2 h)

theorem tries_run_of_not_live (h : ¬m.Live) (fuel : Nat) : Operation.run.tries fuel m = [] :=
  if_pos (not_live_iff.1 h)

theorem triesOf_cons {x : Handled} (h : m.handle fuel op = some x) (history : List Operation) :
    m.triesOf fuel (op :: history) = op.tries fuel m ++ x.machine.triesOf fuel history := by
  rw [triesOf, h]

/-- An operation attempts nothing, a single instruction, or what a run of a live machine attempts.
One that attempts nothing counts nothing. -/
theorem handle_cases {x : Handled} (h : m.handle fuel op = some x) :
    (op.tries fuel m = [] ∧ x.log = op.aside m ∧ x.machine.steps = m.steps) ∨
    (∃ fault, op = .step ∧ m.step.outcome = .error fault ∧
      x = ⟨.stepped (.error fault), m.step.log, m⟩) ∨
    (∃ next, op = .step ∧ m.step.outcome = .ok next ∧
      x = ⟨.stepped (.ok ()), m.step.log, next⟩) ∨
    ∃ r, op = .run ∧ m.Live ∧ proceed fuel m.awake #[] = some r ∧
      x = ⟨.ran r.outcome, r.log, r.machine⟩ := by
  cases op with
  | feed | drain | read =>
      obtain rfl := Option.some.inj h
      exact .inl ⟨rfl, rfl, rfl⟩
  | write address value =>
      left
      cases hwrite : (m.memory.write address value).outcome with
      | error fault =>
          rw [handle_write_error hwrite] at h
          obtain rfl := Option.some.inj h
          exact ⟨rfl, rfl, rfl⟩
      | ok memory =>
          rw [handle_write_ok hwrite] at h
          obtain rfl := Option.some.inj h
          exact ⟨rfl, rfl, rfl⟩
  | step =>
      cases hstep : m.step.outcome with
      | error fault =>
          rw [handle_step_error hstep] at h
          exact .inr (.inl ⟨fault, rfl, rfl, (Option.some.inj h).symm⟩)
      | ok next =>
          rw [handle_step_ok hstep] at h
          exact .inr (.inr (.inl ⟨next, rfl, rfl, (Option.some.inj h).symm⟩))
  | run =>
      obtain ⟨r, hr, rfl⟩ := Option.map_eq_some_iff.1 h
      by_cases hm : m.Live
      · rw [run_of_live hm] at hr
        exact .inr (.inr (.inr ⟨r, rfl, hm, hr, rfl⟩))
      · left
        refine ⟨tries_run_of_not_live hm fuel, ?_⟩
        rcases not_live_iff.1 hm with hhalt | hfault
        · rw [run_of_halted hhalt] at hr
          obtain rfl := Option.some.inj hr
          exact ⟨rfl, rfl⟩
        · rw [run_of_faulted hfault] at hr
          obtain rfl := Option.some.inj hr
          exact ⟨rfl, rfl⟩

end CellMachine.Machine
