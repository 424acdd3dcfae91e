import CellMachine.Machine.Run

/-!
# CellMachine.Proofs.Machine.Attempt

**What one attempt at an instruction can do.** `Attempt m outcome` lists every way in which an
attempt of a machine that is not suspended can turn out, with all that changes in each; it agrees
with `Machine.step` (`attempt_iff`), so later proofs split on its rules and never unfold a step.

Two more facts carry most of what follows. An effect depends on the cells, the instruction pointer
and the relative base only (`effect_congr`). So an attempt that does not block is the same attempt
when more input waits at the back of the queue and more output at the front (`Attempt.flank`).
-/

namespace CellMachine

/-! ### What an effect depends on -/

theorem Memory.read_congr {mem mem' : Memory} (h : ∀ a, mem'.get a = mem.get a) (a : Int) :
    mem'.read a = mem.read a := by
  rcases Int.lt_or_le a 0 with ha | ha
  · rw [Memory.read_of_neg _ ha, Memory.read_of_neg _ ha]
  · rw [Memory.read_of_nonneg _ ha, Memory.read_of_nonneg _ ha, h]

theorem Memory.get_set_congr {mem mem' : Memory} (h : mem'.get = mem.get) (a : Nat) (v : Int) :
    (mem'.set a v).get = (mem.set a v).get := by
  funext b
  rw [Memory.get_set, Memory.get_set, h]

namespace Machine

section Congr

variable {m m' : Machine}

theorem operand_congr (hmem : ∀ a, m'.memory.get a = m.memory.get a) (hip : m'.ip = m.ip)
    (hbase : m'.base = m.base) (slot : Int) (mode : Mode) :
    m'.operand slot mode = m.operand slot mode := by
  have hread := Memory.read_congr hmem
  simp only [operand, raw, hread, hip, hbase]

theorem target_congr (hmem : ∀ a, m'.memory.get a = m.memory.get a) (hip : m'.ip = m.ip)
    (hbase : m'.base = m.base) (slot : Int) (mode : Mode) :
    m'.target slot mode = m.target slot mode := by
  simp only [target, raw, Memory.read_congr hmem, hip, hbase]

theorem effectOf_congr (hmem : ∀ a, m'.memory.get a = m.memory.get a) (hip : m'.ip = m.ip)
    (hbase : m'.base = m.base) (instruction : Instruction) :
    m'.effectOf instruction = m.effectOf instruction := by
  have hoperand := operand_congr hmem hip hbase
  have htarget := target_congr hmem hip hbase
  cases instruction <;> simp only [effectOf, hoperand, htarget, hip]

/-- The effect of an instruction depends on the cells and the two registers only. -/
theorem effect_congr (hmem : ∀ a, m'.memory.get a = m.memory.get a) (hip : m'.ip = m.ip)
    (hbase : m'.base = m.base) : m'.effect = m.effect := by
  have hword : ∀ word, m'.effectOfWord word = m.effectOfWord word := by
    intro word
    simp only [effectOfWord, effectOf_congr hmem hip hbase]
  simp only [effect, Memory.read_congr hmem, hip, hword]

end Congr

/-! ### What a fault of an instruction says -/

/-- Every fault this computation may end with is a new one: it has no place yet, and it is not the
refusal to resume a faulted machine. -/
def FaultsNew {α : Type} (x : Except Fault α) : Prop :=
  ∀ fault, x = .error fault → fault.ip = none ∧ fault.cause ≠ .resumedAfterFault

section FaultsNew

variable {α β : Type}

theorem faultsNew_ok (a : α) : FaultsNew (.ok a) := by
  intro fault h
  cases h

theorem faultsNew_error {cause : Fault.Cause} (h : cause ≠ .resumedAfterFault) :
    FaultsNew (.error { cause } : Except Fault α) := by
  rintro _ ⟨⟩
  exact ⟨rfl, h⟩

theorem FaultsNew.bind {x : Except Fault α} {f : α → Except Fault β} (hx : FaultsNew x)
    (hf : ∀ a, FaultsNew (f a)) : FaultsNew (x >>= f) := by
  cases x with
  | error fault =>
      rintro _ ⟨⟩
      exact hx fault rfl
  | ok a => exact hf a

theorem FaultsNew.map {x : Except Fault α} (hx : FaultsNew x) (f : α → β) :
    FaultsNew (x.map f) := by
  cases x with
  | error fault =>
      rintro _ ⟨⟩
      exact hx fault rfl
  | ok a => exact faultsNew_ok _

end FaultsNew

theorem faultsNew_address (a : Int) : FaultsNew (Memory.address a) := by
  unfold Memory.address
  split
  · exact faultsNew_error (by simp)
  · exact faultsNew_ok _

theorem faultsNew_read (mem : Memory) (a : Int) : FaultsNew (mem.read a) :=
  (faultsNew_address a).map _

theorem faultsNew_operand (m : Machine) (slot : Int) (mode : Mode) :
    FaultsNew (m.operand slot mode) := by
  apply (faultsNew_read _ _).bind
  intro raw
  cases mode with
  | position => exact faultsNew_read _ _
  | immediate => exact faultsNew_ok _
  | relative => exact faultsNew_read _ _

theorem faultsNew_target (m : Machine) (slot : Int) (mode : Mode) :
    FaultsNew (m.target slot mode) := by
  apply (faultsNew_read _ _).bind
  intro raw
  cases mode with
  | position => exact faultsNew_address _
  | immediate => exact faultsNew_error (by simp)
  | relative => exact faultsNew_address _

theorem faultsNew_effectOf (m : Machine) (instruction : Instruction) :
    FaultsNew (m.effectOf instruction) := by
  have hoperand := faultsNew_operand m
  have htarget := faultsNew_target m
  cases instruction with
  | compute op x y dest =>
      exact (hoperand 0 x).bind fun _ => (hoperand 1 y).bind fun _ =>
        (htarget 2 dest).bind fun _ => faultsNew_ok _
  | input dest => exact (htarget 0 dest).bind fun _ => faultsNew_ok _
  | output x => exact (hoperand 0 x).bind fun _ => faultsNew_ok _
  | jump cond x dest =>
      exact (hoperand 0 x).bind fun _ => (hoperand 1 dest).bind fun _ => faultsNew_ok _
  | adjustBase x => exact (hoperand 0 x).bind fun _ => faultsNew_ok _
  | halt => exact faultsNew_ok _

theorem faultsNew_modeAt (n slot : Nat) : FaultsNew (modeAt n slot) := by
  unfold modeAt
  split
  · exact faultsNew_ok _
  · exact faultsNew_error (by simp)

theorem faultsNew_assemble (n : Nat) (op : Opcode) : FaultsNew (Instruction.assemble n op) := by
  have hmode := faultsNew_modeAt n
  have hcompute : ∀ op, FaultsNew (Instruction.assemble.compute n op) := fun op =>
    (hmode 0).bind fun _ => (hmode 1).bind fun _ => (hmode 2).bind fun _ => faultsNew_ok _
  have hjump : ∀ cond, FaultsNew (Instruction.assemble.jump n cond) := fun cond =>
    (hmode 0).bind fun _ => (hmode 1).bind fun _ => faultsNew_ok _
  have hone : ∀ f : Mode → Instruction, FaultsNew (modeAt n 0 >>= fun mode => .ok (f mode)) :=
    fun f => (hmode 0).bind fun _ => faultsNew_ok _
  cases op with
  | add | multiply | lessThan | equals => exact hcompute _
  | jumpNonzero | jumpZero => exact hjump _
  | input | output | adjustBase => exact hone _
  | halt => exact faultsNew_ok _

theorem faultsNew_decode (word : Int) : FaultsNew (Instruction.decode word) := by
  have hnumber : FaultsNew (wordNumber word) := by
    unfold wordNumber
    split
    · exact faultsNew_error (by simp)
    · exact faultsNew_ok _
  have hopcode : ∀ n, FaultsNew (opcodeOf n) := by
    intro n
    unfold opcodeOf
    split
    · exact faultsNew_ok _
    · exact faultsNew_error (by simp)
  exact hnumber.bind fun n => (hopcode n).bind fun op => faultsNew_assemble n op

/-- A fault of an attempt names the instruction pointer, and is never the refusal that a machine
reports which faulted earlier. -/
theorem effect_error {m : Machine} {fault : Fault} (h : m.effect = .error fault) :
    fault.ip = some m.ip ∧ fault.cause ≠ .resumedAfterFault := by
  unfold effect at h
  split at h
  · rename_i f hread
    obtain ⟨hip, hcause⟩ := faultsNew_read _ _ f hread
    obtain rfl := Except.error.inj h
    exact ⟨by simp [Fault.locate, hip], by simpa using hcause⟩
  · rename_i word _
    cases hword : m.effectOfWord word with
    | ok effect =>
        rw [hword] at h
        cases h
    | error f =>
        have hnew : FaultsNew (m.effectOfWord word) :=
          (faultsNew_decode word).bind fun i => faultsNew_effectOf m i
        obtain ⟨hip, hcause⟩ := hnew f hword
        rw [hword] at h
        obtain rfl := Except.error.inj h
        exact ⟨by simp [Fault.locate, hip], by simpa using hcause⟩

/-! ### The ways an attempt turns out -/

/-- How an attempt of a machine turns out, and all that it changes. -/
inductive Attempt (m : Machine) : Except Fault Machine → Prop where
  /-- The instruction cannot be carried out. -/
  | faulted {fault : Fault} : m.effect = .error fault → Attempt m (.error fault)
  /-- An input instruction finds nothing to read; nothing but the status changes. -/
  | blocked {address : Nat} : m.effect = .ok (.accept address) → m.input.queue = [] →
      Attempt m (.ok { m with status := .suspended })
  /-- The machine stops on the spot. -/
  | stopped : m.effect = .ok .stop →
      Attempt m (.ok { m with status := .halted, steps := m.steps + 1 })
  /-- A computation stores its result. -/
  | stored {address : Nat} {value : Int} : m.effect = .ok (.store address value) →
      Attempt m (.ok { m with
        memory := m.memory.set address value, ip := m.ip + 4, steps := m.steps + 1 })
  /-- The front of the input is consumed and stored. -/
  | accepted {address : Nat} {value : Int} {rest : List Int} :
      m.effect = .ok (.accept address) → m.input.queue = value :: rest →
      Attempt m (.ok { m with
        memory := m.memory.set address value, input := ⟨rest⟩, ip := m.ip + 2,
        steps := m.steps + 1 })
  /-- A value is emitted at the back of the output. -/
  | emitted {value : Int} : m.effect = .ok (.emit value) →
      Attempt m (.ok { m with
        output := m.output.push value, ip := m.ip + 2, steps := m.steps + 1 })
  /-- The instruction pointer goes where a jump decides. -/
  | went {ip : Int} : m.effect = .ok (.goto ip) →
      Attempt m (.ok { m with ip := ip, steps := m.steps + 1 })
  /-- The relative base moves. -/
  | shifted {offset : Int} : m.effect = .ok (.shift offset) →
      Attempt m (.ok { m with
        base := m.base + offset, ip := m.ip + 2, steps := m.steps + 1 })

variable {m next : Machine} {outcome : Except Fault Machine}

theorem countStep_of_ne (h : m.status ≠ .suspended) :
    m.countStep = { m with steps := m.steps + 1 } := if_neg h

theorem attempt_step (hs : m.status ≠ .suspended) : Attempt m m.step.outcome := by
  cases he : m.effect with
  | error fault =>
      rw [step_of_error he]
      exact .faulted he
  | ok effect =>
      rw [step_of_ok he]
      -- every effect but the two that set the status leaves it as it was, so the step counts
      cases effect with
      | store address value =>
          rw [countStep_of_ne (m := m.perform (.store address value)) hs]
          exact .stored he
      | accept address =>
          rcases hq : m.input with ⟨_ | ⟨value, rest⟩⟩
          · have hblock : m.perform (.accept address) = { m with status := .suspended } := by
              simp only [perform, hq, Channel.pop?_nil]
            rw [hblock, countStep, if_pos rfl]
            exact .blocked he (by rw [hq])
          · have hread : m.perform (.accept address) =
                { m with
                  memory := m.memory.set address value, input := ⟨rest⟩, ip := m.ip + 2 } := by
              simp only [perform, hq, Channel.pop?_cons]
            rw [countStep_of_ne (m := m.perform (.accept address)) (by rw [hread]; exact hs), hread]
            exact .accepted he (by rw [hq])
      | emit value =>
          rw [countStep_of_ne (m := m.perform (.emit value)) hs]
          exact .emitted he
      | goto ip =>
          rw [countStep_of_ne (m := m.perform (.goto ip)) hs]
          exact .went he
      | shift offset =>
          rw [countStep_of_ne (m := m.perform (.shift offset)) hs]
          exact .shifted he
      | stop =>
          rw [countStep_of_ne (m := m.perform .stop) (by simp [perform])]
          exact .stopped he

/-- The rules decide the outcome. -/
theorem Attempt.unique {outcome' : Except Fault Machine} (h : Attempt m outcome)
    (h' : Attempt m outcome') : outcome = outcome' := by
  cases h <;> cases h' <;> simp_all

/-- The rules are what an attempt does. -/
theorem attempt_iff (hs : m.status ≠ .suspended) :
    Attempt m outcome ↔ m.step.outcome = outcome :=
  ⟨fun h => (attempt_step hs).unique h, fun h => h ▸ attempt_step hs⟩

/-! ### Input behind, output in front -/

/-- The machine with more input at the back and more output at the front: what it would look like
had the input been there from the beginning and no output been taken. -/
def flank (m : Machine) (before after : List Int) : Machine :=
  { m with input := m.input.extend after, output := ⟨before ++ m.output.queue⟩ }

@[simp] theorem status_flank (before after : List Int) :
    (m.flank before after).status = m.status := rfl
@[simp] theorem queue_input_flank (before after : List Int) :
    (m.flank before after).input.queue = m.input.queue ++ after := rfl
@[simp] theorem queue_output_flank (before after : List Int) :
    (m.flank before after).output.queue = before ++ m.output.queue := rfl

theorem effect_flank (before after : List Int) : (m.flank before after).effect = m.effect :=
  effect_congr (fun _ => rfl) rfl rfl

/-- An input instruction is due and nothing waits to be read. -/
def Blocked (m : Machine) : Prop :=
  m.input.queue = [] ∧ ∃ address, m.effect = .ok (.accept address)

/-- An attempt blocks, or it does not see what waits behind its input and before its output. -/
theorem Attempt.flank (h : Attempt m outcome) (before after : List Int) :
    (m.Blocked ∧ outcome = .ok { m with status := .suspended }) ∨
      Attempt (m.flank before after) (outcome.map fun next => next.flank before after) := by
  have he := effect_flank (m := m) before after
  -- only an input instruction looks at the input, and only at its front
  cases h with
  | faulted h => exact .inr (.faulted (he.trans h))
  | blocked h hq => exact .inl ⟨⟨hq, _, h⟩, rfl⟩
  | stopped h => exact .inr (.stopped (he.trans h))
  | stored h => exact .inr (.stored (he.trans h))
  | accepted h hq => exact .inr (.accepted (he.trans h) (by rw [queue_input_flank, hq]; rfl))
  | emitted h =>
      have hpush := Attempt.emitted (he.trans h)
      exact .inr (by simpa [Machine.flank, Channel.push, Except.map] using hpush)
  | went h => exact .inr (.went (he.trans h))
  | shifted h => exact .inr (.shifted (he.trans h))

theorem step_flank (hrun : m.status = .running) (before after : List Int) :
    (m.Blocked ∧ m.step.outcome = .ok { m with status := .suspended }) ∨
      (m.flank before after).step.outcome =
        m.step.outcome.map fun next => next.flank before after := by
  have hm : m.status ≠ .suspended := by rw [hrun]; decide
  rcases (attempt_step hm).flank before after with h | h
  · exact .inl h
  · exact .inr ((attempt_iff (m := m.flank before after) hm).1 h)

/-- Output that was not taken does not unblock a machine. -/
theorem blocked_flank_nil (before : List Int) : (m.flank before []).Blocked ↔ m.Blocked := by
  unfold Blocked
  rw [queue_input_flank, List.append_nil, effect_flank]

end Machine

end CellMachine
