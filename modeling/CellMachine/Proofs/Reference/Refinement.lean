import CellMachine.Proofs.Machine.Intents
import CellMachine.Proofs.Reference.Machine

/-!
# CellMachine.Proofs.Reference.Refinement

**The machine refines the reference machine.** `view` forgets how a memory is split into an image
and the cells beyond it, and what a machine keeps about itself. One attempt of a machine is one step
of the reference machine on the view (`step_view`), so their runs end alike and in the same state.

By `Machine.effectOfWord_eq` an attempt looks up the intents of the operation, resolves the operands
in order and puts the effect together, which is the shape the reference machine has. The two then
agree piece by piece, up to naming a fault by its kind only.
-/

namespace CellMachine

namespace Reference

open Machine (Ends RunsTo Live length_of_resolveFrom)

/-! ### The view -/

/-- What the reference machine sees of a machine. -/
def view (m : Machine) : State where
  memory := m.memory.get
  ip := m.ip
  base := m.base
  input := m.input.queue
  output := m.output.queue

/-- A computation whose fault is named by its kind. -/
def kinds {α : Type} (x : Except Fault α) : Except Fault.Kind α := x.mapError (·.cause.kind)

theorem kinds_bind {α β : Type} (x : Except Fault α) (f : α → Except Fault β) :
    kinds (x >>= f) = kinds x >>= fun a => kinds (f a) := by
  cases x <;> rfl

theorem place_eq (a : Int) : State.place a = kinds ((Memory.address a).map Int.ofNat) := by
  rcases Int.lt_or_le a 0 with ha | ha
  · rw [State.place, if_pos ha, Memory.address_of_neg ha]
    rfl
  · rw [State.place, if_neg (Int.not_lt.2 ha), Memory.address_of_nonneg ha]
    exact congrArg Except.ok (Int.toNat_of_nonneg ha).symm

theorem cell_view (m : Machine) (a : Int) : (view m).cell a = kinds (m.memory.read a) := by
  rcases Int.lt_or_le a 0 with ha | ha
  · rw [State.cell, State.place, if_pos ha, Memory.read_of_neg _ ha]
    rfl
  · rw [State.cell, State.place, if_neg (Int.not_lt.2 ha), Memory.read_of_nonneg _ ha]
    rfl

/-- The table of modes agrees, as far as an instruction can be fetched at all. -/
theorem operand_view {m : Machine} (hip : 0 ≤ m.ip) (slot : Nat) (mode : Mode) (intent : Intent) :
    (view m).operand slot mode intent = kinds (m.resolve slot mode intent) := by
  have hraw : m.raw slot = .ok (m.memory.get (m.ip + 1 + slot).toNat) :=
    Memory.read_of_nonneg _ (by omega)
  have hcell : (view m).cell ((view m).ip + 1 + slot) = kinds (m.raw slot) := cell_view m _
  cases intent with
  | read =>
      rw [Machine.resolve, Machine.operand, kinds_bind, ← hcell]
      cases mode with
      | position => exact bind_congr fun raw => cell_view m raw
      | immediate => rw [State.operand, hcell, hraw]; rfl
      | relative => exact bind_congr fun raw => cell_view m (m.base + raw)
  | write =>
      rw [Machine.resolve, Machine.target, hraw]
      cases mode with
      | position =>
          rw [State.operand, hcell, hraw]
          exact place_eq _
      | immediate => rfl
      | relative =>
          rw [State.operand, hcell, hraw]
          exact place_eq _

theorem modes_eq (n slot count : Nat) :
    State.modes n slot count = kinds (modesFrom n slot count) := by
  induction count generalizing slot with
  | zero => rfl
  | succ count ih =>
      have hmode : (mode? n slot).elim (.error .decode) .ok = kinds (modeAt n slot) := by
        rw [mode?_eq_ofDigit?, modeAt]
        cases Mode.ofDigit? (modeDigit n slot) <;> rfl
      rw [State.modes, modesFrom, kinds_bind, hmode]
      apply bind_congr
      intro mode
      rw [kinds_bind, ih]
      rfl

theorem operands_view {m : Machine} (hip : 0 ≤ m.ip) (slot : Nat) (l : List (Mode × Intent)) :
    (view m).operands slot l = kinds (m.resolveFrom slot l) := by
  induction l generalizing slot with
  | nil => rfl
  | cons p rest ih =>
      obtain ⟨mode, intent⟩ := p
      rw [State.operands, Machine.resolveFrom, kinds_bind, operand_view hip]
      apply bind_congr
      intro value
      rw [kinds_bind, ih]
      rfl

theorem intents_eq (c : Nat) : intents c = (Opcode.ofCode? c).map Opcode.intents := by
  unfold Opcode.ofCode?
  split
  all_goals first | rfl | (unfold intents; split <;> simp_all)

/-- The operation at the instruction pointer with its operands resolved. -/
def resolved (m : Machine) : Except Fault (Opcode × List Int) := do
  let word ← m.memory.read m.ip
  let n ← wordNumber word
  let op ← opcodeOf n
  let modes ← modesFrom n 0 op.intents.length
  let operands ← m.resolveFrom 0 (modes.zip op.intents)
  return (op, operands)

theorem kinds_locate {α : Type} (x : Except Fault α) (ip word : Option Int) :
    kinds (x.mapError (·.locate ip word)) = kinds x := by
  cases x with
  | error fault => exact congrArg (fun c => Except.error c.kind) (Fault.cause_locate fault ip word)
  | ok a => rfl

/-- The effect of a machine is the effect of the operation on its operands. -/
theorem kinds_effect (m : Machine) :
    kinds m.effect = kinds (resolved m >>= fun p => .ok (p.1.effect m.ip p.2)) := by
  rw [Machine.effect, resolved]
  simp only [bind_assoc]
  rcases m.memory.read m.ip with fault | word
  · exact kinds_locate (.error fault : Except Fault Effect) _ _
  · show kinds ((m.effectOfWord word).mapError _) = _
    rw [kinds_locate, Machine.effectOfWord_eq]
    rfl

/-- Both machines decode and resolve alike. -/
theorem decode_view (m : Machine) :
    (view m).cell m.ip >>= (view m).decode =
      kinds (resolved m >>= fun p => .ok (p.1.code, p.2)) := by
  rw [resolved]
  simp only [bind_assoc]
  rw [cell_view, kinds_bind]
  rcases Int.lt_or_le m.ip 0 with hip | hip
  · rw [Memory.read_of_neg _ hip]
    rfl
  -- from here on the operand cells have addresses, so the order of the checks cannot matter
  rw [Memory.read_of_nonneg _ hip]
  generalize m.memory.get m.ip.toNat = word
  show (view m).decode word = kinds (wordNumber word >>= _)
  rw [State.decode, wordNumber]
  split
  · rfl
  show _ = kinds (opcodeOf word.toNat >>= _)
  rw [opcode_eq_codeOf, intents_eq, opcodeOf]
  cases hop : Opcode.ofCode? (codeOf word.toNat) with
  | none => rfl
  | some op =>
      show State.modes word.toNat 0 op.intents.length >>= _ = kinds (modesFrom _ _ _ >>= _)
      rw [modes_eq, kinds_bind]
      apply bind_congr
      intro modes
      rw [kinds_bind, operands_view hip, Opcode.code_of_ofCode? hop]
      rfl

/-- An operation has as many operands as intents. -/
theorem length_of_resolved {m : Machine} {op : Opcode} {operands : List Int}
    (h : resolved m = .ok (op, operands)) : operands.length = op.intents.length := by
  obtain ⟨word, -, h⟩ := bind_eq_ok.1 h
  obtain ⟨n, -, h⟩ := bind_eq_ok.1 h
  obtain ⟨op, -, h⟩ := bind_eq_ok.1 h
  obtain ⟨modes, hmodes, h⟩ := bind_eq_ok.1 h
  obtain ⟨operands, hoperands, ⟨⟩⟩ := bind_eq_ok.1 h
  rw [length_of_resolveFrom hoperands, List.length_zip, length_of_modesFrom hmodes, Nat.min_self]

/-! ### One step -/

/-- What the reference machine makes of an effect. -/
def resultOf (m : Machine) (e : Effect) : Result :=
  match e with
  | .stop => .halt
  | .accept _ => if m.input.queue = [] then .wait else .next (view (m.perform e))
  | e => .next (view (m.perform e))

theorem view_set (m : Machine) (a v : Int) :
    (view m).store a v = view { m with memory := m.memory.set a.toNat v } := by
  simp only [State.store, view, State.mk.injEq, and_true]
  funext b
  rw [Memory.get_set]

/-- The table of operations agrees with the effects. -/
theorem execute_view (m : Machine) {op : Opcode} {operands : List Int}
    (h : operands.length = op.intents.length) :
    (view m).execute op.code operands = resultOf m (op.effect m.ip operands) := by
  cases op with
  | add | multiply | lessThan | equals =>
      obtain ⟨a, b, c, rfl⟩ := List.length_eq_three.1 h
      simp only [Opcode.code, State.execute, Opcode.effect, view_set]
      rfl
  | input =>
      obtain ⟨a, rfl⟩ := List.length_eq_one_iff.1 h
      rcases hq : m.input with ⟨_ | ⟨v, rest⟩⟩
      · simp [Opcode.code, State.execute, Opcode.effect, resultOf, view, hq]
      · have hperform : m.perform (.accept a.toNat) =
            { m with memory := m.memory.set a.toNat v, input := ⟨rest⟩, ip := m.ip + 2 } := by
          simp only [Machine.perform, hq, Channel.pop?_cons]
        have hread : (view m).execute 3 [a] =
            .next (((view { m with input := ⟨rest⟩ }).store a v).advance 2) := by
          simp only [State.execute, view, hq]
        simp only [Opcode.code, Opcode.effect, resultOf, hread, view_set, hperform]
        rw [if_neg (by rw [hq]; simp)]
        rfl
  | output =>
      obtain ⟨a, rfl⟩ := List.length_eq_one_iff.1 h
      rfl
  | jumpNonzero | jumpZero =>
      obtain ⟨a, b, rfl⟩ := List.length_eq_two.1 h
      by_cases ha : a = 0 <;>
        simp [Opcode.code, State.execute, Opcode.effect, resultOf, Condition.holds, ha,
          Machine.perform, view, State.advance]
  | adjustBase =>
      obtain ⟨a, rfl⟩ := List.length_eq_one_iff.1 h
      rfl
  | halt =>
      obtain rfl := List.length_eq_zero_iff.1 h
      rfl

/-- One step of the reference machine is one attempt of the machine. -/
theorem step_view (m : Machine) :
    (view m).step = match m.effect with
      | .error fault => .fault fault.cause.kind
      | .ok e => resultOf m e := by
  have hdecode := decode_view m
  have heffect := kinds_effect m
  -- both sides are functions of `resolved m`: the same fault, or the same operation and operands
  rw [State.step, show (view m).ip = m.ip from rfl, hdecode]
  cases hres : resolved m with
  | error fault =>
      rw [hres] at heffect
      cases he : m.effect with
      | ok e => rw [he] at heffect; cases heffect
      | error fault' =>
          rw [he] at heffect
          exact congrArg Result.fault (Except.error.inj heffect).symm
  | ok p =>
      obtain ⟨op, operands⟩ := p
      rw [hres] at heffect
      cases he : m.effect with
      | error fault => rw [he] at heffect; cases heffect
      | ok e =>
          rw [he] at heffect
          obtain rfl : e = op.effect m.ip operands := Except.ok.inj heffect
          exact execute_view m (length_of_resolved hres)

/-! ### Whole runs -/

/-- What a run reports where the reference machine ends. -/
inductive Reports : Ending → Except Fault Status → Prop where
  | halted : Reports .halted (.ok .halted)
  | waiting : Reports .waiting (.ok .suspended)
  | faulted (fault : Fault) : Reports (.faulted fault.cause.kind) (.error fault)

theorem Reports.unique {ending ending' : Ending} {outcome : Except Fault Status}
    (h : Reports ending outcome) (h' : Reports ending' outcome) : ending = ending' := by
  cases h <;> cases h' <;> rfl

variable {m last : Machine} {outcome : Except Fault Status} {ending : Ending} {t : State}

/-- An attempt of a machine and a step of the reference machine that tell the same. -/
inductive Alike (m : Machine) : Except Fault Machine → Result → Prop where
  | next {next : Machine} : next.status = .running → Alike m (.ok next) (.next (view next))
  | halt {next : Machine} : next.status = .halted → view next = view m → Alike m (.ok next) .halt
  | wait {next : Machine} : next.status = .suspended → view next = view m →
      Alike m (.ok next) .wait
  | fault (fault : Fault) : Alike m (.error fault) (.fault fault.cause.kind)

theorem alike_step (hrun : m.status = .running) : Alike m m.step.outcome (view m).step := by
  have hm : m.status ≠ .suspended := by rw [hrun]; decide
  rw [step_view]
  generalize ho : m.step.outcome = o
  cases (Machine.attempt_iff hm).2 ho with
  | faulted he => rw [he]; exact .fault _
  | @blocked a he hq =>
      have hresult : resultOf m (.accept a) = .wait := if_pos hq
      simp only [he, hresult]
      exact .wait rfl rfl
  | stopped he => rw [he]; exact .halt rfl rfl
  | stored he | emitted he | went he | shifted he => rw [he]; exact .next hrun
  | @accepted a v rest he hq =>
      have hinput : m.input = ⟨v :: rest⟩ := by rw [← hq]
      have hresult : resultOf m (.accept a) =
          .next (view { m with
            memory := m.memory.set a v, input := ⟨rest⟩, ip := m.ip + 2,
            steps := m.steps + 1 }) := by
        simp [resultOf, Machine.perform, hinput, view]
      simp only [he, hresult]
      exact .next hrun

theorem exists_alike_result {o : Except Fault Machine} (hrun : m.status = .running)
    (h : m.step.outcome = o) : ∃ result, (view m).step = result ∧ Alike m o result :=
  ⟨_, rfl, h ▸ alike_step hrun⟩

theorem exists_alike_outcome {result : Result} (hrun : m.status = .running)
    (h : (view m).step = result) : ∃ o, m.step.outcome = o ∧ Alike m o result :=
  ⟨_, rfl, h ▸ alike_step hrun⟩

/-- Where the machine comes to rest, the reference machine ends. -/
theorem reaches_of_ends (h : Ends m last outcome) (hrun : m.status = .running) :
    ∃ ending, Reports ending outcome ∧ Reaches (view m) ending (view last) := by
  induction h with
  | fault hstep =>
      obtain ⟨result, hs, halike⟩ := exists_alike_result hrun hstep
      cases halike
      exact ⟨_, .faulted _, .fault hs⟩
  | rest hstep hrest =>
      obtain ⟨result, hs, halike⟩ := exists_alike_result hrun hstep
      cases halike with
      | next hnext => exact absurd hnext hrest
      | halt hnext hview =>
          rw [hnext, hview]
          exact ⟨_, .halted, .halt hs⟩
      | wait hnext hview =>
          rw [hnext, hview]
          exact ⟨_, .waiting, .wait hs⟩
  | advance hstep hnext _ ih =>
      obtain ⟨ending, hreports, hreaches⟩ := ih hnext
      obtain ⟨result, hs, halike⟩ := exists_alike_result hrun hstep
      cases halike with
      | next _ => exact ⟨ending, hreports, .next hs hreaches⟩
      | halt hne _ | wait hne _ => rw [hnext] at hne; cases hne

/-- Where the reference machine ends, the machine comes to rest. -/
theorem ends_of_reaches (h : Reaches (view m) ending t) (hrun : m.status = .running) :
    ∃ last outcome, Ends m last outcome ∧ Reports ending outcome ∧ view last = t := by
  -- the induction is on the run of the reference machine, the machine being any with this view
  generalize hs : view m = s at h
  induction h generalizing m with
  | halt hstep =>
      subst hs
      obtain ⟨o, ho, halike⟩ := exists_alike_outcome hrun hstep
      cases halike with
      | halt hnext hview =>
          exact ⟨_, _, .rest ho (by rw [hnext]; decide), hnext ▸ .halted, hview⟩
  | wait hstep =>
      subst hs
      obtain ⟨o, ho, halike⟩ := exists_alike_outcome hrun hstep
      cases halike with
      | wait hnext hview =>
          exact ⟨_, _, .rest ho (by rw [hnext]; decide), hnext ▸ .waiting, hview⟩
  | fault hstep =>
      subst hs
      obtain ⟨o, ho, halike⟩ := exists_alike_outcome hrun hstep
      cases halike
      exact ⟨_, _, .fault ho, .faulted _, rfl⟩
  | next hstep _ ih =>
      subst hs
      obtain ⟨o, ho, halike⟩ := exists_alike_outcome hrun hstep
      cases halike with
      | next hnext =>
          obtain ⟨last, outcome, hends, hrest⟩ := ih hnext rfl
          exact ⟨last, outcome, .advance ho hnext hends, hrest⟩

end Reference

end CellMachine
