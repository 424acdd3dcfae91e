import CellMachine.Machine.Operand

/-!
# One instruction

An attempt at an instruction has two halves.

* `Machine.effect` says what the instruction at `ip` is about to do. It only looks at the machine,
  and every fault arises in it, located at `ip`.
* `Machine.perform` carries an effect out. It cannot fail.

So an attempt that faults leaves no trace in the machine, by construction. An input instruction on
an empty channel completes nothing: it suspends the machine and stays where it is. The step counter
counts an attempt unless it leaves the machine suspended.

Here an attempt notes what it notes, and faults as it faults, however large the integers in it are.
What becomes of it under a digit limit is in `CellMachine.Machine.Limited`.
-/

namespace CellMachine

/-- What an instruction is about to do, its operands resolved. -/
inductive Effect where
  /-- Store a value, then go on behind the four cells of a computation. -/
  | store (address : Nat) (value : Int)
  /-- Store the next input value, or wait for one. -/
  | accept (address : Nat)
  /-- Emit a value. -/
  | emit (value : Int)
  /-- Go to an address. -/
  | goto (ip : Int)
  /-- Move the relative base. -/
  | shift (offset : Int)
  /-- Stop. -/
  | stop
  deriving DecidableEq, Repr

namespace Machine

/-- The effect of a decoded instruction at the instruction pointer. -/
def effectOf (m : Machine) : Instruction → Except Fault Effect
  | .compute op x y dest => do
    let a ← m.operand 0 x
    let b ← m.operand 1 y
    let address ← m.target 2 dest
    return .store address (op.eval a b)
  | .input dest => return .accept (← m.target 0 dest)
  | .output x => return .emit (← m.operand 0 x)
  | .jump cond x dest => do
    let a ← m.operand 0 x
    let b ← m.operand 1 dest
    return .goto (if cond.holds a then b else m.ip + 3)
  | .adjustBase x => return .shift (← m.operand 0 x)
  | .halt => return .stop

/-- The effect of the instruction a word stands for. -/
def effectOfWord (m : Machine) (word : Int) : Except Fault Effect := do
  let instruction ← Instruction.decode word
  m.effectOf instruction

/-- The effect of the instruction at the instruction pointer; a fault says where it arose. -/
def effect (m : Machine) : Except Fault Effect :=
  match m.memory.read m.ip with
  | .error fault => .error (fault.locate (some m.ip) none)
  | .ok word => (m.effectOfWord word).mapError (·.locate (some m.ip) (some word))

/-- Carries an effect out. -/
def perform (m : Machine) : Effect → Machine
  | .store address value => { m with memory := m.memory.set address value, ip := m.ip + 4 }
  | .accept address =>
    match m.input.pop? with
    | none => { m with status := .suspended }
    | some (value, rest) =>
      { m with memory := m.memory.set address value, input := rest, ip := m.ip + 2 }
  | .emit value => { m with output := m.output.push value, ip := m.ip + 2 }
  | .goto ip => { m with ip }
  | .shift offset => { m with base := m.base + offset, ip := m.ip + 2 }
  | .stop => { m with status := .halted }

/-- What carrying an effect out notes. -/
def notes (m : Machine) : Effect → List Event
  | .store address _ => m.memory.growth address
  | .accept address =>
    match m.input.pop? with
    | none => [.suspended m.ip]
    | some _ => m.memory.growth address
  | .stop => [.halted m.ip]
  | .emit _ | .goto _ | .shift _ => []

/-- What is noted before an attempt. -/
def traceNotes (m : Machine) : List Event :=
  if m.trace then [.registers m.registers] else []

/-- Counts an attempt unless it left the machine suspended. -/
def countStep (m : Machine) : Machine :=
  if m.status = .suspended then m else { m with steps := m.steps + 1 }

/-- One attempt at the instruction at the instruction pointer. -/
@[inline] def step (m : Machine) : Logged Fault Machine :=
  match m.effect with
  | .error fault => ⟨m.traceNotes, .error fault⟩
  | .ok effect => ⟨m.traceNotes ++ m.notes effect, .ok (m.perform effect).countStep⟩

/-! ## The two halves of an attempt -/

theorem step_of_error {m : Machine} {fault : Fault} (h : m.effect = .error fault) :
    m.step = ⟨m.traceNotes, .error fault⟩ := by
  simp [step, h]

theorem step_of_ok {m : Machine} {effect : Effect} (h : m.effect = .ok effect) :
    m.step = ⟨m.traceNotes ++ m.notes effect, .ok (m.perform effect).countStep⟩ := by
  simp [step, h]

/-- An attempt faults exactly when the instruction has no effect. -/
theorem outcome_step (m : Machine) :
    m.step.outcome = m.effect.map fun effect => (m.perform effect).countStep := by
  unfold step
  cases m.effect <;> rfl

/-- Up to `count` attempts, ending after one that leaves the machine suspended or halted. The
result is the machine reached and the number of attempts that completed, or the fault. -/
def stepMany (m : Machine) : Nat → Machine × List Event × Except Fault Nat
  | 0 => (m, [], .ok 0)
  | count + 1 =>
    match m.step with
    | ⟨log, .error fault⟩ => (m, log, .error fault)
    | ⟨log, .ok next⟩ =>
      if next.status = .suspended ∨ next.status = .halted then (next, log, .ok 1)
      else
        let (last, later, completed) := next.stepMany count
        (last, log ++ later, completed.map (· + 1))

end Machine

end CellMachine
