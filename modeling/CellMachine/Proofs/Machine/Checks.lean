import CellMachine.Proofs.Instruction.Digits
import CellMachine.Proofs.Machine.InPlace

/-!
# CellMachine.Proofs.Machine.Checks

**When an attempt faults, and with which fault.** `Finds m check cause` lists, independently of
each other, all that can be wrong with the instruction at the instruction pointer of `m`: one rule
for each kind of check, several of which may find something at once. The checks have an order
(`Check.Before`), and an attempt reports what the first of them finds. `first_or_clear` walks
through the checks in that order, once; the rest is read off it.
-/

namespace CellMachine

namespace Machine

/-! ### What is looked at -/

/-- The word at the instruction pointer. -/
def word (m : Machine) : Int := m.memory.get m.ip.toNat

/-- The code of that word: its last two digits. -/
def code (m : Machine) : Int := m.word % 100

/-- The digit of that word for the mode of the operand in a slot. -/
def digit (m : Machine) (slot : Nat) : Nat := modeDigit m.word.toNat slot

/-- What the operands of that word are for; a word that no operation has takes none. -/
def intents (m : Machine) : List Intent :=
  (Opcode.ofCode? m.code.toNat).elim [] Opcode.intents

/-- The raw cell of the operand in a slot. -/
def cell (m : Machine) (slot : Nat) : Int := m.memory.get (m.ip + 1 + slot).toNat

/-- The effective address of an operand, in a mode that gives it one. -/
def effective? (m : Machine) (slot : Nat) : Mode → Option Int
  | .position => some (m.cell slot)
  | .immediate => none
  | .relative => some (m.base + m.cell slot)

/-- The checks on an instruction. -/
inductive Check where
  /-- Is there a cell at the instruction pointer? -/
  | place
  /-- Is the word a number? -/
  | sign
  /-- Does an operation have its code? -/
  | code
  /-- Does a mode have the digit for this slot? -/
  | mode (slot : Nat)
  /-- Can the operand in this slot be resolved? -/
  | operand (slot : Nat)
  deriving DecidableEq

/-- A check finds this to be wrong. -/
inductive Finds (m : Machine) : Check → Fault.Cause → Prop where
  /-- The instruction pointer is below zero. -/
  | place : m.ip < 0 → Finds m .place (.negativeAddress m.ip)
  /-- The word is below zero. -/
  | sign : m.word < 0 → Finds m .sign (.negativeWord m.word)
  /-- The code is none of 1 to 9 and 99. -/
  | code : ¬(1 ≤ m.code ∧ m.code ≤ 9 ∨ m.code = 99) → Finds m .code (.unknownOpcode m.code.toNat)
  /-- The mode digit of an operand that the operation has is above 2. -/
  | mode {slot : Nat} : slot < m.intents.length → 2 < m.digit slot →
      Finds m (.mode slot) (.unknownMode (m.digit slot))
  /-- An operand to be written is immediate. -/
  | target {slot : Nat} : m.intents[slot]? = some .write →
      Mode.ofDigit? (m.digit slot) = some .immediate →
      Finds m (.operand slot) (.immediateTarget slot)
  /-- The effective address of an operand is below zero. -/
  | address {slot : Nat} {mode : Mode} {a : Int} : slot < m.intents.length →
      Mode.ofDigit? (m.digit slot) = some mode → m.effective? slot mode = some a → a < 0 →
      Finds m (.operand slot) (.negativeAddress a)

/-- The place of a kind of check in their order. -/
def Check.rank : Check → Nat
  | .place => 0
  | .sign => 1
  | .code => 2
  | .mode _ => 3
  | .operand _ => 4

/-- The slot that a check is about. -/
def Check.slot : Check → Nat
  | .place | .sign | .code => 0
  | .mode slot | .operand slot => slot

/-- One kind of check after the other, and each kind in the order of the slots. -/
def Check.Before (check later : Check) : Prop :=
  check.rank < later.rank ∨ check.rank = later.rank ∧ check.slot < later.slot

/-- The first check that finds anything finds this. -/
structure First (m : Machine) (check : Check) (cause : Fault.Cause) : Prop where
  finds : Finds m check cause
  clear : ∀ earlier cause', earlier.Before check → ¬Finds m earlier cause'

/-- The fault for what a check found. All name the instruction pointer, and all but the first check
the word. -/
def faultAt (m : Machine) (check : Check) (cause : Fault.Cause) : Fault :=
  ⟨cause, some m.ip, if check = .place then none else some m.word⟩

variable {m : Machine} {check check' : Check} {cause cause' : Fault.Cause} {fault : Fault}

/-! ### There is one first finding at most -/

theorem Finds.unique (h : Finds m check cause) (h' : Finds m check cause') : cause = cause' := by
  cases h with
  | place | sign | code | mode => cases h'; rfl
  | target _ hmode =>
      cases h' with
      | target => rfl
      | address _ hmode' ha _ =>
          obtain rfl := Option.some.inj (hmode.symm.trans hmode')
          cases ha
  | address _ hmode ha _ =>
      cases h' with
      | target _ hmode' =>
          obtain rfl := Option.some.inj (hmode.symm.trans hmode')
          cases ha
      | address _ hmode' ha' _ =>
          obtain rfl := Option.some.inj (hmode.symm.trans hmode')
          obtain rfl := Option.some.inj (ha.symm.trans ha')
          rfl

theorem Check.before_or_eq (check check' : Check) :
    check.Before check' ∨ check = check' ∨ check'.Before check := by
  unfold Check.Before
  cases check <;> cases check' <;> simp [Check.rank, Check.slot] <;> omega

theorem First.unique (h : First m check cause) (h' : First m check' cause') :
    check = check' ∧ cause = cause' := by
  rcases check.before_or_eq check' with hbefore | rfl | hbefore
  · exact absurd h.finds (h'.clear _ _ hbefore)
  · exact ⟨rfl, h.finds.unique h'.finds⟩
  · exact absurd h'.finds (h.clear _ _ hbefore)

/-! ### Operands -/

theorem address_eq_error_iff {a : Int} :
    Memory.address a = .error fault ↔ a < 0 ∧ fault = { cause := .negativeAddress a } := by
  rcases Int.lt_or_le a 0 with ha | ha
  · rw [Memory.address_of_neg ha, Except.error.injEq, eq_comm]
    exact (and_iff_right ha).symm
  · rw [Memory.address_of_nonneg ha]
    exact iff_of_false nofun fun h => absurd h.1 (Int.not_lt.2 ha)

theorem read_eq_error_iff {memory : Memory} {a : Int} :
    memory.read a = .error fault ↔ a < 0 ∧ fault = { cause := .negativeAddress a } := by
  rw [← address_eq_error_iff, Memory.read]
  cases Memory.address a <;> simp [Except.map]

/-- An operand cannot be resolved if it is to be written and immediate, or if its effective address
is below zero. -/
theorem resolve_eq_error_iff (hip : 0 ≤ m.ip) {slot : Nat} {mode : Mode} {intent : Intent} :
    m.resolve slot mode intent = .error fault ↔
      (intent = .write ∧ mode = .immediate ∧ fault = { cause := .immediateTarget slot }) ∨
        ∃ a, m.effective? slot mode = some a ∧ a < 0 ∧
          fault = { cause := .negativeAddress a } := by
  have hraw : m.raw slot = .ok (m.cell slot) := Memory.read_of_nonneg _ (by omega)
  cases intent with
  | read =>
      rw [resolve, operand, hraw]
      cases mode with
      | position =>
          show m.memory.read (m.cell slot) = .error fault ↔ _
          simp [read_eq_error_iff, effective?]
      | immediate =>
          show Except.ok (m.cell slot) = .error fault ↔ _
          simp [effective?]
      | relative =>
          show m.memory.read (m.base + m.cell slot) = .error fault ↔ _
          simp [read_eq_error_iff, effective?]
  | write =>
      have hmap : ∀ {x : Except Fault Nat}, x.map Int.ofNat = .error fault ↔ x = .error fault := by
        intro x
        cases x <;> simp [Except.map]
      rw [resolve, hmap, target, hraw]
      cases mode with
      | position =>
          show Memory.address (m.cell slot) = .error fault ↔ _
          simp [address_eq_error_iff, effective?]
      | immediate =>
          show Except.error { cause := .immediateTarget slot } = .error fault ↔ _
          simp [effective?, eq_comm]
      | relative =>
          show Memory.address (m.base + m.cell slot) = .error fault ↔ _
          simp [address_eq_error_iff, effective?]

theorem resolveFrom_eq_mapM (m : Machine) (slot : Nat) (l : List (Mode × Intent)) :
    m.resolveFrom slot l = (l.zipIdx slot).mapM fun p => m.resolve p.2 p.1.1 p.1.2 := by
  induction l generalizing slot with
  | nil => rfl
  | cons p rest ih => rw [resolveFrom, List.zipIdx_cons, List.mapM_cons, ih]

/-- The check of an operand finds what keeps it from being resolved. -/
theorem finds_operand_iff (hip : 0 ≤ m.ip) {slot : Nat} {mode : Mode} {intent : Intent}
    (hintent : m.intents[slot]? = some intent) (hmode : Mode.ofDigit? (m.digit slot) = some mode) :
    m.resolve slot mode intent = .error fault ↔
      ∃ cause, Finds m (.operand slot) cause ∧ fault = { cause } := by
  rw [resolve_eq_error_iff hip]
  constructor
  · rintro (⟨rfl, rfl, rfl⟩ | ⟨a, ha, hneg, rfl⟩)
    · exact ⟨_, .target hintent hmode, rfl⟩
    · exact ⟨_, .address (List.getElem?_eq_some_iff.1 hintent).1 hmode ha hneg, rfl⟩
  · rintro ⟨cause, hfinds, rfl⟩
    cases hfinds with
    | target hwrite himmediate =>
        obtain rfl := Option.some.inj (hintent.symm.trans hwrite)
        obtain rfl := Option.some.inj (hmode.symm.trans himmediate)
        exact .inl ⟨rfl, rfl, rfl⟩
    | address _ hmode' ha hneg =>
        obtain rfl := Option.some.inj (hmode.symm.trans hmode')
        exact .inr ⟨_, ha, hneg, rfl⟩

/-- An operand in which something is found is one that the operation has, in a mode. -/
theorem Finds.exists_operand {slot : Nat} (h : Finds m (.operand slot) cause) :
    ∃ mode intent, Mode.ofDigit? (m.digit slot) = some mode ∧ m.intents[slot]? = some intent := by
  cases h with
  | target hwrite himmediate => exact ⟨_, _, himmediate, hwrite⟩
  | address hslot hmode _ _ => exact ⟨_, _, hmode, List.getElem?_eq_getElem hslot⟩

/-- Operands are resolved up to the first in which something is found. -/
theorem operands_eq_error_iff {modes : List Mode} (hip : 0 ≤ m.ip)
    (hmodes : modesFrom m.word.toNat 0 m.intents.length = .ok modes) :
    m.resolveFrom 0 (modes.zip m.intents) = .error fault ↔
      ∃ slot cause, Finds m (.operand slot) cause ∧
        (∀ earlier < slot, ∀ cause', ¬Finds m (.operand earlier) cause') ∧ fault = { cause } := by
  have hat : ∀ slot p, (modes.zip m.intents).zipIdx[slot]? = some p ↔
      ∃ mode intent, Mode.ofDigit? (m.digit slot) = some mode ∧
        m.intents[slot]? = some intent ∧ p = ((mode, intent), slot) := by
    intro slot p
    have hmode : ∀ {intent}, m.intents[slot]? = some intent →
        modes[slot]? = Mode.ofDigit? (m.digit slot) :=
      fun hintent => getElem?_of_modesFrom hmodes (List.getElem?_eq_some_iff.1 hintent).1
    simp only [List.getElem?_zipIdx, Option.map_eq_some_iff, List.getElem?_zip_eq_some,
      Nat.zero_add, Prod.exists]
    constructor
    · rintro ⟨mode, intent, ⟨hslot, hintent⟩, rfl⟩
      exact ⟨mode, intent, (hmode hintent).symm.trans hslot, hintent, rfl⟩
    · rintro ⟨mode, intent, hdigit, hintent, rfl⟩
      exact ⟨mode, intent, ⟨(hmode hintent).trans hdigit, hintent⟩, rfl⟩
  have hfails : ∀ slot p fault, (modes.zip m.intents).zipIdx[slot]? = some p →
      (m.resolve p.2 p.1.1 p.1.2 = .error fault ↔
        ∃ cause, Finds m (.operand slot) cause ∧ fault = { cause }) := by
    intro slot p fault hp
    obtain ⟨mode, intent, hmode, hintent, rfl⟩ := (hat slot p).1 hp
    exact finds_operand_iff hip hintent hmode
  rw [resolveFrom_eq_mapM, mapM_eq_error_iff]
  constructor
  · rintro ⟨slot, p, hp, hfault, hearlier⟩
    obtain ⟨cause, hfinds, rfl⟩ := (hfails slot p fault hp).1 hfault
    refine ⟨slot, cause, hfinds, ?_, rfl⟩
    intro earlier hlt cause' hfinds'
    obtain ⟨mode, intent, hmode, hintent⟩ := hfinds'.exists_operand
    have hp' := (hat earlier _).2 ⟨mode, intent, hmode, hintent, rfl⟩
    obtain ⟨v, hv⟩ := hearlier earlier hlt _ hp'
    cases hv.symm.trans ((hfails earlier _ _ hp').2 ⟨cause', hfinds', rfl⟩)
  · rintro ⟨slot, cause, hfinds, hclear, rfl⟩
    obtain ⟨mode, intent, hmode, hintent⟩ := hfinds.exists_operand
    have hp := (hat slot _).2 ⟨mode, intent, hmode, hintent, rfl⟩
    refine ⟨slot, _, hp, (hfails slot _ _ hp).2 ⟨cause, hfinds, rfl⟩, ?_⟩
    intro earlier hlt p hp
    cases hresolve : m.resolve p.2 p.1.1 p.1.2 with
    | ok v => exact ⟨v, rfl⟩
    | error f =>
        obtain ⟨cause', hfinds', -⟩ := (hfails earlier p f hp).1 hresolve
        exact absurd hfinds' (hclear earlier hlt cause')

/-! ### One check after the other -/

/-- No check of a rank below this one finds anything. -/
def ClearBelow (m : Machine) (rank : Nat) : Prop :=
  ∀ check cause, check.rank < rank → ¬Finds m check cause

theorem ClearBelow.succ {rank : Nat} (h : ClearBelow m rank)
    (hrank : ∀ check cause, check.rank = rank → ¬Finds m check cause) :
    ClearBelow m (rank + 1) := by
  intro check cause hlt
  rcases Nat.lt_succ_iff_lt_or_eq.1 hlt with hlt | heq
  · exact h check cause hlt
  · exact hrank check cause heq

theorem ClearBelow.first (h : ClearBelow m check.rank) (hfinds : Finds m check cause)
    (hslots : ∀ earlier cause', earlier.rank = check.rank → earlier.slot < check.slot →
      ¬Finds m earlier cause') : First m check cause := by
  refine ⟨hfinds, ?_⟩
  rintro earlier cause' (hlt | ⟨heq, hlt⟩)
  · exact h earlier cause' hlt
  · exact hslots earlier cause' heq hlt

/-- A kind of check that is made once has no earlier slots. -/
theorem ClearBelow.first_of_slot (h : ClearBelow m check.rank) (hfinds : Finds m check cause)
    (hslot : check.slot = 0) : First m check cause := by
  refine h.first hfinds ?_
  intro earlier cause' _ hlt
  rw [hslot] at hlt
  exact absurd hlt (Nat.not_lt_zero _)

theorem effect_of_fetch (hip : 0 ≤ m.ip) :
    m.effect = (m.effectOfWord m.word).mapError (·.locate (some m.ip) (some m.word)) := by
  rw [effect, Memory.read_of_nonneg _ hip]
  rfl

theorem effectOfWord_of_code (hword : 0 ≤ m.word) :
    m.effectOfWord m.word =
      match Opcode.ofCode? m.code.toNat with
      | none => .error { cause := .unknownOpcode m.code.toNat }
      | some op => do
        let modes ← modesFrom m.word.toNat 0 m.intents.length
        let operands ← m.resolveFrom 0 (modes.zip m.intents)
        return op.effect m.ip operands := by
  have hcodeOf : codeOf m.word.toNat = m.code.toNat := by
    unfold codeOf code
    omega
  rw [effectOfWord_eq, wordNumber, if_neg (Int.not_lt.2 hword)]
  show opcodeOf m.word.toNat >>= _ = _
  rw [opcodeOf, hcodeOf, intents]
  cases Opcode.ofCode? m.code.toNat <;> rfl

/-- With an operation, an attempt reads its modes and resolves its operands. -/
theorem effect_of_operation {op : Opcode} (hip : 0 ≤ m.ip) (hword : 0 ≤ m.word)
    (hop : Opcode.ofCode? m.code.toNat = some op) :
    m.effect = (do
      let modes ← modesFrom m.word.toNat 0 m.intents.length
      let operands ← m.resolveFrom 0 (modes.zip m.intents)
      return op.effect m.ip operands : Except Fault Effect).mapError
        (·.locate (some m.ip) (some m.word)) := by
  rw [effect_of_fetch hip, effectOfWord_of_code hword, hop]

/-! ### The checks in their order -/

theorem clear_below_place (m : Machine) : ClearBelow m 0 := by
  intro check cause hlt
  exact absurd hlt (Nat.not_lt_zero _)

theorem ClearBelow.place (h : ClearBelow m 0) (hip : 0 ≤ m.ip) : ClearBelow m 1 := by
  apply h.succ
  intro check cause hrank hfinds
  cases hfinds <;> cases hrank
  omega

theorem ClearBelow.sign (h : ClearBelow m 1) (hword : 0 ≤ m.word) : ClearBelow m 2 := by
  apply h.succ
  intro check cause hrank hfinds
  cases hfinds <;> cases hrank
  omega

theorem ClearBelow.code {op : Opcode} (h : ClearBelow m 2)
    (hop : Opcode.ofCode? m.code.toNat = some op) : ClearBelow m 3 := by
  apply h.succ
  intro check cause hrank hfinds
  cases hfinds with
  | code hnone =>
      have hsome := mt Opcode.ofCode?_eq_none_iff.2 (by rw [hop]; simp)
      omega
  | _ => cases hrank

theorem ClearBelow.modes {modes : List Mode} (h : ClearBelow m 3)
    (hmodes : modesFrom m.word.toNat 0 m.intents.length = .ok modes) : ClearBelow m 4 := by
  apply h.succ
  intro check cause hrank hfinds
  cases hfinds with
  | @mode slot hslot hdigit =>
      have hread : modes[slot]? = Mode.ofDigit? (m.digit slot) :=
        getElem?_of_modesFrom hmodes hslot
      rw [ofDigit?_eq_none_iff.2 hdigit, List.getElem?_eq_none_iff,
        length_of_modesFrom hmodes] at hread
      omega
  | _ => cases hrank

theorem ClearBelow.operands {modes : List Mode} {operands : List Int} (h : ClearBelow m 4)
    (hip : 0 ≤ m.ip) (hmodes : modesFrom m.word.toNat 0 m.intents.length = .ok modes)
    (hoperands : m.resolveFrom 0 (modes.zip m.intents) = .ok operands) :
    ∀ check cause, ¬Finds m check cause := by
  -- the first operand in which something is found would have been a fault
  have hslots : ∀ slot cause, ¬Finds m (.operand slot) cause := by
    intro slot
    induction slot using Nat.strongRecOn with
    | ind slot ih =>
        intro cause hfinds
        cases hoperands.symm.trans
          ((operands_eq_error_iff hip hmodes).2 ⟨slot, cause, hfinds, ih, rfl⟩)
  intro check cause
  cases check with
  | operand slot => exact hslots slot cause
  | _ => exact h _ _ (by simp [Check.rank])

/-- An attempt reports what the first check finds, and has an effect if none finds anything. -/
theorem first_or_clear (m : Machine) :
    (∃ check cause, First m check cause ∧ m.effect = .error (m.faultAt check cause)) ∨
      ((∃ e, m.effect = .ok e) ∧ ∀ check cause, ¬Finds m check cause) := by
  have hplace := clear_below_place m
  rcases Int.lt_or_le m.ip 0 with hip | hip
  · refine .inl ⟨.place, _, hplace.first_of_slot (.place hip) rfl, ?_⟩
    rw [effect, Memory.read_of_neg _ hip]
    rfl
  have hsign := hplace.place hip
  rcases Int.lt_or_le m.word 0 with hword | hword
  · refine .inl ⟨.sign, _, hsign.first_of_slot (.sign hword) rfl, ?_⟩
    rw [effect_of_fetch hip, effectOfWord_eq, wordNumber, if_pos hword]
    rfl
  have hcode := hsign.sign hword
  cases hop : Opcode.ofCode? m.code.toNat with
  | none =>
      have hnone := Opcode.ofCode?_eq_none_iff.1 hop
      refine .inl ⟨.code, _, hcode.first_of_slot (.code (by omega)) rfl, ?_⟩
      rw [effect_of_fetch hip, effectOfWord_of_code hword, hop]
      rfl
  | some op =>
      have heffect := effect_of_operation hip hword hop
      have hmode := hcode.code hop
      cases hmodes : modesFrom m.word.toNat 0 m.intents.length with
      | error fault =>
          rw [hmodes] at heffect
          obtain ⟨slot, hslot, hdigit, hearlier, rfl⟩ := modesFrom_eq_error_iff.1 hmodes
          refine .inl ⟨.mode slot, _, hmode.first (.mode hslot hdigit) ?_, heffect⟩
          intro earlier cause' hrank hlt hfinds
          cases hfinds with
          | mode _ hbad => exact absurd (hearlier _ hlt) (Nat.not_le.2 hbad)
          | _ => cases hrank
      | ok modes =>
          have hoperand := hmode.modes hmodes
          rw [hmodes] at heffect
          replace heffect : m.effect = (do
              let operands ← m.resolveFrom 0 (modes.zip m.intents)
              return op.effect m.ip operands : Except Fault Effect).mapError
                (·.locate (some m.ip) (some m.word)) := heffect
          cases hoperands : m.resolveFrom 0 (modes.zip m.intents) with
          | error fault =>
              rw [hoperands] at heffect
              obtain ⟨slot, cause, hfinds, hearlier, rfl⟩ :=
                (operands_eq_error_iff hip hmodes).1 hoperands
              refine .inl ⟨.operand slot, cause, hoperand.first hfinds ?_, heffect⟩
              intro earlier cause' hrank hlt hfinds'
              cases earlier <;> cases hrank
              exact hearlier _ hlt cause' hfinds'
          | ok operands =>
              rw [hoperands] at heffect
              exact .inr ⟨⟨_, heffect⟩, hoperand.operands hip hmodes hoperands⟩

/-! ### Faults of an attempt -/

theorem step_eq_error_iff :
    m.step.outcome = .error fault ↔
      ∃ check cause, First m check cause ∧ fault = m.faultAt check cause := by
  rw [outcome_step]
  rcases first_or_clear m with ⟨check, cause, hfirst, heffect⟩ | ⟨⟨e, heffect⟩, hclear⟩
  · rw [heffect]
    constructor
    · intro h
      exact ⟨check, cause, hfirst, (Except.error.inj h).symm⟩
    · rintro ⟨check', cause', hfirst', rfl⟩
      obtain ⟨rfl, rfl⟩ := hfirst.unique hfirst'
      rfl
  · rw [heffect]
    refine iff_of_false nofun ?_
    rintro ⟨check, cause, hfirst, -⟩
    exact hclear check cause hfirst.finds

/-! ### Instructions that have an effect -/

theorem effectOfWord_of_effect {e : Effect} (h : m.effect = .ok e) :
    0 ≤ m.ip ∧ m.effectOfWord m.word = .ok e := by
  rcases Int.lt_or_le m.ip 0 with hip | hip
  · rw [effect, Memory.read_of_neg _ hip] at h
    cases h
  · rw [effect_of_fetch hip] at h
    cases hword : m.effectOfWord m.word with
    | error fault =>
        rw [hword] at h
        cases h
    | ok e' =>
        rw [hword] at h
        obtain rfl := Except.ok.inj h
        exact ⟨hip, rfl⟩

/-- A word that has an operation is a number with the code of the operation. -/
theorem code_of_operation {word : Int} {op : Opcode} (h : operation word = .ok op) :
    0 ≤ word ∧ word % 100 = op.code := by
  obtain ⟨n, hnumber, hop⟩ := bind_eq_ok.1 h
  unfold wordNumber at hnumber
  split at hnumber
  · cases hnumber
  · rename_i hword
    obtain rfl := Except.ok.inj hnumber
    unfold opcodeOf at hop
    split at hop
    · rename_i op' hcode
      obtain rfl := Except.ok.inj hop
      have hlast : word.toNat % 100 = op'.code := Opcode.code_of_ofCode? hcode
      omega
    · cases hop

/-- An effect is that of the operation at the instruction pointer on its resolved operands. -/
theorem operands_of_effect {e : Effect} (h : m.effect = .ok e) :
    0 ≤ m.ip ∧ 0 ≤ m.word ∧ ∃ op : Opcode, m.code = op.code ∧
      ∃ operands, m.operands m.word op.intents = .ok operands ∧ op.effect m.ip operands = e := by
  obtain ⟨hip, hword⟩ := effectOfWord_of_effect h
  rw [effectOfWord_eq_operands] at hword
  obtain ⟨op, hop, hword⟩ := bind_eq_ok.1 hword
  obtain ⟨operands, hoperands, heffect⟩ := bind_eq_ok.1 hword
  obtain ⟨hnonneg, hcode⟩ := code_of_operation hop
  exact ⟨hip, hnonneg, op, hcode, operands, hoperands, Except.ok.inj heffect⟩

/-- The operation whose code is that of the word is the one that has the effect. -/
theorem operands_of_code {e : Effect} (op : Opcode) (hcode : m.code = op.code)
    (h : m.effect = .ok e) :
    ∃ operands, m.operands m.word op.intents = .ok operands ∧
      List.Forall₂ Usable op.intents operands ∧ op.effect m.ip operands = e := by
  obtain ⟨-, -, op', hcode', operands, hoperands, heffect⟩ := operands_of_effect h
  have hsame : op'.code = op.code := by omega
  obtain rfl : op' = op := by
    have hop := Opcode.ofCode?_code op'
    rw [hsame, Opcode.ofCode?_code] at hop
    exact (Option.some.inj hop).symm
  exact ⟨operands, hoperands, usable_of_operands hoperands, heffect⟩

/-- Input instructions read a value, output instructions emit one, and no others do. -/
theorem code_of_effect {e : Effect} (h : m.effect = .ok e) :
    (m.code = 3 ↔ ∃ a, e = .accept a) ∧ (m.code = 4 ↔ ∃ v, e = .emit v) := by
  obtain ⟨-, -, op, hcode, operands, hoperands, rfl⟩ := operands_of_effect h
  have husable := usable_of_operands hoperands
  rw [hcode]
  cases op with
  | add | multiply | lessThan | equals =>
      obtain _ | ⟨-, _ | ⟨-, _ | ⟨-, _ | _⟩⟩⟩ := husable
      simp [Opcode.code, Opcode.effect]
  | jumpNonzero | jumpZero =>
      obtain _ | ⟨-, _ | ⟨-, _ | _⟩⟩ := husable
      simp [Opcode.code, Opcode.effect]
  | input | output | adjustBase =>
      obtain _ | ⟨-, _ | _⟩ := husable
      simp [Opcode.code, Opcode.effect]
  | halt =>
      obtain _ | _ := husable
      simp [Opcode.code, Opcode.effect]

theorem step_of_blocked {a : Nat} (h : m.effect = .ok (.accept a)) (hqueue : m.input.queue = []) :
    m.step.outcome = .ok { m with status := .suspended } := by
  have hinput : m.input = ⟨[]⟩ := by rw [← hqueue]
  have hperform : m.perform (.accept a) = { m with status := .suspended } := by
    simp only [perform, hinput, Channel.pop?_nil]
  rw [outcome_step, h, Except.map, hperform]
  rfl

end Machine

end CellMachine
