import CellMachine.Proofs.Machine.Intents

/-!
# CellMachine.Proofs.Machine.InPlace

**A machine that is changed in place.** `Machine.step` first finds the effect of an instruction and
then carries it out, so a step that faults returns no machine at all. Here an attempt changes one
machine bit by bit, each instruction with its own order of looks and changes, and what was changed
before a fault stays changed.

Every instruction looks at all its operands before its first change, and a cell that a resolved
operand names can be written (`execute_eq`). So the two kinds of attempt are the same
(`attempt_eq`), and so are the runs made of them (`run_eq`).

What is noted is left out here, so that notes that are not written are, too; for these see
`CellMachine.Machine.Limited`.
-/

namespace CellMachine.Machine

variable {m last : Machine} {α : Type}

/-! ### What operands resolve to -/

/-- What a resolved operand is good for: a target has an address. -/
def Usable : Intent → Int → Prop
  | .read, _ => True
  | .write, a => 0 ≤ a

theorem usable_of_resolve {slot : Int} {mode : Mode} {intent : Intent} {a : Int}
    (h : m.resolve slot mode intent = .ok a) : Usable intent a := by
  cases intent with
  | read => trivial
  | write =>
      unfold resolve at h
      cases ht : m.target slot mode with
      | error fault =>
          rw [ht] at h
          cases h
      | ok address =>
          rw [ht] at h
          obtain rfl := Except.ok.inj h
          exact Int.natCast_nonneg address

theorem usable_of_resolveFrom {slot : Nat} {modes : List Mode} {intents : List Intent}
    {values : List Int} (hlength : modes.length = intents.length)
    (h : m.resolveFrom slot (modes.zip intents) = .ok values) :
    List.Forall₂ Usable intents values := by
  induction intents generalizing slot modes values with
  | nil =>
      rw [List.zip_nil_right] at h
      obtain rfl := Except.ok.inj h
      exact .nil
  | cons intent intents ih =>
      obtain _ | ⟨mode, modes⟩ := modes
      · cases hlength
      · obtain ⟨value, hvalue, h⟩ := bind_eq_ok.1 h
        obtain ⟨values, hvalues, ⟨⟩⟩ := bind_eq_ok.1 h
        exact .cons (usable_of_resolve hvalue) (ih (Nat.succ.inj hlength) hvalues)

/-- A word has as many operands as are asked for, and its targets have addresses. -/
theorem usable_of_operands {word : Int} {intents : List Intent} {values : List Int}
    (h : m.operands word intents = .ok values) : List.Forall₂ Usable intents values := by
  obtain ⟨modes, hmodes, h⟩ := bind_eq_ok.1 h
  obtain ⟨n, -, hmodes⟩ := bind_eq_ok.1 hmodes
  exact usable_of_resolveFrom (length_of_modesFrom hmodes) h

/-- The operation of a word. -/
def operation (word : Int) : Except Fault Opcode := wordNumber word >>= opcodeOf

theorem effectOfWord_eq_operands (m : Machine) (word : Int) :
    m.effectOfWord word = do
      let op ← operation word
      let operands ← m.operands word op.intents
      return op.effect m.ip operands := by
  rw [effectOfWord_eq, operation]
  simp only [operands, decodeModes, bind_assoc]
  rcases wordNumber word with fault | n
  · rfl
  · rfl

/-! ### One instruction -/

/-- A computation on a machine in place: what it changed before a fault stays changed. -/
abbrev InPlace := ExceptT Fault (StateM Machine)

namespace InPlace

/-- Looks at the machine. -/
def look (f : Machine → Except Fault α) : InPlace α := fun m => (f m, m)

/-- Changes the machine. -/
def change (f : Machine → Machine) : InPlace Unit := fun m => (.ok (), f m)

/-- Writes a cell. -/
def store (a v : Int) : InPlace Unit := do
  let memory ← look fun m => (m.memory.write a v).outcome
  change fun m => { m with memory }

/-- Goes on behind an instruction of so many cells. -/
def advance (cells : Int) : InPlace Unit := change fun m => { m with ip := m.ip + cells }

/-- Stores a function of two values. -/
def compute (op : Computation) (word : Int) : InPlace Unit := do
  match ← look (·.operands word [.read, .read, .write]) with
  | [a, b, c] => do
    store c (op.eval a b)
    advance 4
  | _ => pure ()

/-- Goes elsewhere if the condition holds of the first value. -/
def jump (cond : Condition) (word : Int) : InPlace Unit := do
  match ← look (·.operands word [.read, .read]) with
  | [a, b] => if cond.holds a then change fun m => { m with ip := b } else advance 3
  | _ => pure ()

/-- Takes the front of the input, and only then stores it. -/
def input (word : Int) : InPlace Unit := do
  match ← look (·.operands word [.write]) with
  | [a] =>
    match (← get).input.pop? with
    | none => change fun m => { m with status := .suspended }
    | some (value, rest) => do
      change fun m => { m with input := rest }
      store a value
      advance 2
  | _ => pure ()

/-- Emits a value. -/
def output (word : Int) : InPlace Unit := do
  match ← look (·.operands word [.read]) with
  | [a] => do
    change fun m => { m with output := m.output.push a }
    advance 2
  | _ => pure ()

/-- Moves the relative base. -/
def adjustBase (word : Int) : InPlace Unit := do
  match ← look (·.operands word [.read]) with
  | [a] => do
    change fun m => { m with base := m.base + a }
    advance 2
  | _ => pure ()

/-- Executes the operation of a word. -/
def execute (word : Int) : Opcode → InPlace Unit
  | .add => compute .add word
  | .multiply => compute .multiply word
  | .lessThan => compute .lessThan word
  | .equals => compute .equals word
  | .input => input word
  | .output => output word
  | .jumpNonzero => jump .nonzero word
  | .jumpZero => jump .zero word
  | .adjustBase => adjustBase word
  | .halt => change fun m => { m with status := .halted }

/-- Says where a fault arose, as far as it is known when it arises. -/
def located (word : Option Int) (x : InPlace α) : InPlace α :=
  tryCatch x fun fault => do throw (fault.locate (some (← get).ip) word)

/-- Before an attempt that is traced, the cell at the instruction pointer is read to be shown. -/
def display : InPlace Unit := do
  if (← get).trace ∧ 0 ≤ (← get).ip then
    let _ ← look fun m => m.memory.read m.ip

/-- One attempt at the instruction at the instruction pointer. -/
def attempt : InPlace Unit := do
  let word ← located none do
    display
    look fun m => m.memory.read m.ip
  located (some word) do
    let op ← look fun _ => operation word
    execute word op
  change countStep

section Bind

variable {β : Type} {x : InPlace α} {f : α → InPlace β}

theorem bind_of_ok {a : α} (h : x m = (.ok a, last)) : (x >>= f) m = f a last := by
  simp only [bind, ExceptT.bind, ExceptT.mk, StateT.bind, h]
  rfl

theorem bind_of_error {fault : Fault} (h : x m = (.error fault, last)) :
    (x >>= f) m = (.error fault, last) := by
  simp only [bind, ExceptT.bind, ExceptT.mk, StateT.bind, h]
  rfl

end Bind

section TryCatch

variable {x : InPlace α} {handle : Fault → InPlace α}

theorem tryCatch_of_ok {a : α} (h : x m = (.ok a, last)) :
    tryCatch x handle m = (.ok a, last) := by
  simp only [tryCatch, tryCatchThe, MonadExceptOf.tryCatch, ExceptT.tryCatch, ExceptT.mk, bind,
    StateT.bind, h]
  rfl

theorem tryCatch_of_error {fault : Fault} (h : x m = (.error fault, last)) :
    tryCatch x handle m = handle fault last := by
  simp only [tryCatch, tryCatchThe, MonadExceptOf.tryCatch, ExceptT.tryCatch, ExceptT.mk, bind,
    StateT.bind, h]

end TryCatch

/-- A cell that has an address can be written. -/
theorem store_of_nonneg {a : Int} (h : 0 ≤ a) (v : Int) :
    store a v m = (.ok (), { m with memory := m.memory.set a.toNat v }) := by
  have hwrite : (m.memory.write a v).outcome = .ok (m.memory.set a.toNat v) := by
    rw [← Int.toNat_of_nonneg h, Memory.write_ofNat]
    rfl
  exact bind_of_ok (Prod.ext hwrite rfl)

/-- An operation with its operands at hand faults no more. -/
theorem execute_of_operands {word : Int} {op : Opcode} {operands : List Int}
    (h : m.operands word op.intents = .ok operands) :
    execute word op m = (.ok (), m.perform (op.effect m.ip operands)) := by
  have hlook : look (·.operands word op.intents) m = (.ok operands, m) := Prod.ext h rfl
  have husable := usable_of_operands h
  -- the operands are as many as the intents, and where one is stored to it has an address
  cases op with
  | add | multiply | lessThan | equals =>
      obtain _ | ⟨-, _ | ⟨-, _ | ⟨hc, _ | _⟩⟩⟩ := husable
      exact (bind_of_ok hlook).trans (bind_of_ok (store_of_nonneg hc _))
  | input =>
      obtain _ | ⟨ha, _ | _⟩ := husable
      refine (bind_of_ok hlook).trans ?_
      cases hpop : m.input.pop? with
      | none =>
          simp only [Opcode.effect, perform, hpop]
          refine (bind_of_ok (a := m) rfl).trans ?_
          rw [hpop]
          rfl
      | some p =>
          obtain ⟨value, rest⟩ := p
          simp only [Opcode.effect, perform, hpop]
          refine (bind_of_ok (a := m) rfl).trans ?_
          rw [hpop]
          exact bind_of_ok (store_of_nonneg (m := { m with input := rest }) ha value)
  | output | adjustBase =>
      obtain _ | ⟨-, _ | _⟩ := husable
      exact bind_of_ok hlook
  | jumpNonzero | jumpZero =>
      obtain _ | ⟨-, _ | ⟨-, _ | _⟩⟩ := husable
      refine (bind_of_ok hlook).trans ?_
      simp only [Opcode.effect, perform]
      split <;> rfl
  | halt =>
      obtain _ | _ := husable
      rfl

theorem execute_of_no_operands {word : Int} {op : Opcode} {fault : Fault}
    (hop : operation word = .ok op) (h : m.operands word op.intents = .error fault) :
    execute word op m = (.error fault, m) := by
  have hlook : look (·.operands word op.intents) m = (.error fault, m) := Prod.ext h rfl
  cases op with
  | halt =>
      -- a word that stands for an operation has a number, and no modes are asked of it
      obtain ⟨n, hn, -⟩ := bind_eq_ok.1 hop
      rw [operands, decodeModes, hn] at h
      cases h
  | _ => exact bind_of_error hlook

theorem display_eq (m : Machine) : display m = (.ok (), m) := by
  refine (bind_of_ok (a := m) rfl).trans ((bind_of_ok (a := m) rfl).trans ?_)
  split
  · rename_i h
    have hread : look (fun m => m.memory.read m.ip) m = (.ok (m.memory.get m.ip.toNat), m) :=
      Prod.ext (Memory.read_of_nonneg _ h.2) rfl
    exact bind_of_ok hread
  · rfl

/-- Where a computation in place ends that changes nothing unless it succeeds. -/
def kept (m : Machine) : Except Fault Machine → Except Fault Unit × Machine
  | .error fault => (.error fault, m)
  | .ok next => (.ok (), next)

theorem kept_eq_error {outcome : Except Fault Machine} {fault : Fault} :
    kept m outcome = (.error fault, last) ↔ outcome = .error fault ∧ last = m := by
  cases outcome <;> simp [kept, eq_comm]

theorem kept_eq_ok {outcome : Except Fault Machine} :
    kept m outcome = (.ok (), last) ↔ outcome = .ok last := by
  cases outcome <;> simp [kept]

theorem located_of_kept (word : Option Int) {x : InPlace Unit} {outcome : Except Fault Machine}
    (h : x m = kept m outcome) :
    located word x m = kept m (outcome.mapError (·.locate (some m.ip) word)) := by
  cases outcome with
  | error fault => exact tryCatch_of_error h
  | ok next => exact tryCatch_of_ok h

/-- Finding the operation of a word and executing it is carrying out the effect of the word. -/
theorem execute_eq (m : Machine) (word : Int) :
    (look (fun _ => operation word) >>= execute word) m =
      kept m ((m.effectOfWord word).map m.perform) := by
  rw [effectOfWord_eq_operands]
  cases hop : operation word with
  | error fault => rfl
  | ok op =>
      show execute word op m = kept m (Except.map m.perform (m.operands word op.intents >>= _))
      cases hoperands : m.operands word op.intents with
      | error fault => exact execute_of_no_operands hop hoperands
      | ok operands => exact execute_of_operands hoperands

/-- **An attempt in place is an attempt**: of one that faults nothing stays. -/
theorem attempt_eq (m : Machine) : attempt m = kept m m.step.outcome := by
  have hshow : ∀ {o : Except Fault Int}, m.memory.read m.ip = o →
      (do display; look fun m => m.memory.read m.ip) m = (o, m) := by
    intro o ho
    exact (bind_of_ok (display_eq m)).trans (Prod.ext ho rfl)
  rw [outcome_step, effect]
  cases hread : m.memory.read m.ip with
  | error fault => exact bind_of_error (tryCatch_of_error (hshow hread))
  | ok word =>
      refine (bind_of_ok (tryCatch_of_ok (hshow hread))).trans ?_
      have hexecuted := located_of_kept (some word) (execute_eq m word)
      show (located (some word) (look (fun _ => operation word) >>= execute word) >>= _) m =
        kept m (((m.effectOfWord word).mapError (·.locate (some m.ip) (some word))).map _)
      cases he : m.effectOfWord word with
      | error fault =>
          rw [he] at hexecuted
          exact bind_of_error hexecuted
      | ok e =>
          rw [he] at hexecuted
          exact bind_of_ok hexecuted

/-! ### Whole runs -/

/-- Attempts instructions while the machine is running; there is no status if the bound is spent
before that ends. -/
def proceed : Nat → InPlace (Option Status)
  | 0 => return none
  | fuel + 1 => do
    attempt
    let status := (← get).status
    if status = .running then proceed fuel else return some status

/-- Runs the machine until it rests. A fault leaves a mark in the status and is passed on. -/
def run (fuel : Nat) : InPlace (Option Status) := do
  match (← get).status with
  | .halted => return some .halted
  | .faulted => throw { cause := .resumedAfterFault, ip := some (← get).ip }
  | _ => do
    change awake
    tryCatch (proceed fuel) fun fault => do
      change fun m => { m with status := .faulted }
      throw fault

theorem proceed_eq {fuel : Nat} {log : Array Event} {r : Run}
    (h : Machine.proceed fuel m log = some r) :
    ∃ last, proceed fuel m = (r.outcome.map some, last) ∧
      r.machine = match r.outcome with
        | .error _ => { last with status := .faulted }
        | .ok _ => last := by
  induction fuel generalizing m log with
  | zero => cases h
  | succ fuel ih =>
      have hattempt := attempt_eq m
      cases hstep : m.step.outcome with
      | error fault =>
          rw [proceed_of_error hstep, Option.some.injEq] at h
          rw [hstep] at hattempt
          exact ⟨m, h ▸ bind_of_error hattempt, by rw [← h]⟩
      | ok next =>
          rw [proceed_of_ok hstep] at h
          rw [hstep] at hattempt
          have hproceed : proceed (fuel + 1) m =
              (if next.status = .running then proceed fuel else pure (some next.status)) next :=
            (bind_of_ok hattempt).trans (bind_of_ok (a := next) rfl)
          rw [hproceed]
          by_cases hrun : next.status = .running
          · rw [if_pos hrun] at h ⊢
            exact ih h
          · rw [if_neg hrun, Option.some.injEq] at h
            rw [if_neg hrun]
            exact ⟨next, by rw [← h]; rfl, by rw [← h]⟩

/-- **A run in place is a run.** -/
theorem run_eq {fuel : Nat} {r : Run} (h : m.run fuel = some r) :
    run fuel m = (r.outcome.map some, r.machine) := by
  refine (bind_of_ok (a := m) rfl).trans ?_
  cases hstatus : m.status with
  | halted =>
      rw [run_of_halted hstatus, Option.some.injEq] at h
      rw [← h]
      rfl
  | faulted =>
      rw [run_of_faulted hstatus, Option.some.injEq] at h
      rw [← h]
      rfl
  | fresh | running | suspended =>
      rw [run_of_live ⟨by simp [hstatus], by simp [hstatus]⟩] at h
      obtain ⟨last, hproceed, hmachine⟩ := proceed_eq h
      have hawake : change awake m = (.ok (), m.awake) := rfl
      refine (bind_of_ok hawake).trans ?_
      cases hout : r.outcome with
      | error fault =>
          rw [hout] at hproceed hmachine
          rw [hmachine]
          exact tryCatch_of_error hproceed
      | ok status =>
          rw [hout] at hproceed hmachine
          rw [hmachine]
          exact tryCatch_of_ok hproceed

end InPlace

end CellMachine.Machine
