import CellMachine.Memory
import CellMachine.Channel

/-!
# The machine

A machine is a memory, an instruction pointer, a relative base, two channels, and an account of what
it has done: its status and the number of completed instructions. Nothing here runs it; see
`CellMachine.Machine.Step` for one instruction and `CellMachine.Machine.Run` for a whole run.
-/

namespace CellMachine

/-- What a machine is up to. -/
inductive Status where
  /-- It was loaded and never run. -/
  | fresh
  /-- It has instructions to carry out. -/
  | running
  /-- It waits for input; a run retries the waiting instruction. -/
  | suspended
  /-- It stopped, for good. -/
  | halted
  /-- It met a fault and is never resumed. -/
  | faulted
  deriving DecidableEq, Repr

/-- The state of a machine. -/
structure Machine where
  /-- Program and data. -/
  memory : Memory
  /-- The address of the next instruction; a jump may put it below zero. -/
  ip : Int := 0
  /-- What relative operands are relative to. -/
  base : Int := 0
  /-- The values to be read. -/
  input : Channel := {}
  /-- The values emitted and not yet taken. -/
  output : Channel := {}
  /-- What the machine is up to. -/
  status : Status := .fresh
  /-- The number of completed instructions. -/
  steps : Nat := 0
  /-- Is every instruction to be preceded by a note of the registers? -/
  trace : Bool := false

namespace Machine

/-- A machine loaded with an image, its input waiting. -/
def load (image : List Int) (input : List Int) (trace : Bool) : Machine :=
  { memory := .ofImage image, input := .ofList input, trace }

/-- The machine with more input. -/
def feed (m : Machine) (values : List Int) : Machine := { m with input := m.input.extend values }

/-- The values emitted so far, and the machine without them. -/
def drain (m : Machine) : List Int × Machine :=
  (m.output.drain.1, { m with output := m.output.drain.2 })

/-- The registers as a trace shows them: below address zero there is no cell to show. -/
def registers (m : Machine) : Registers where
  ip := m.ip
  base := m.base
  word := if m.ip < 0 then none else some (m.memory.get m.ip.toNat)
  waiting := m.input.size
  emitted := m.output.size

@[simp] theorem drain_fst (m : Machine) : m.drain.1 = m.output.queue := rfl
@[simp] theorem drain_snd (m : Machine) : m.drain.2 = { m with output := {} } := rfl
@[simp] theorem feed_nil (m : Machine) : m.feed [] = m := by
  simp [feed, Channel.extend]

/-- Feeding in two portions is feeding once. -/
theorem feed_feed (m : Machine) (xs ys : List Int) : (m.feed xs).feed ys = m.feed (xs ++ ys) := by
  simp [feed, Channel.extend]

end Machine

end CellMachine
