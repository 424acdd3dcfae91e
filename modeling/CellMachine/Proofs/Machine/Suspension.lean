import CellMachine.Proofs.Machine.Checks
import CellMachine.Proofs.Machine.Session

/-!
# CellMachine.Proofs.Machine.Suspension

**Waiting for input.** A run that ends suspended leaves the machine at an input instruction whose
destination is resolved and whose channel is empty (`Waits`). The destination depends on the cells,
the instruction pointer and the relative base, none of which a caller's `feed` and `drain` touch, so
it stays the same until a value is there to be stored. That holds also where the instruction is
about to overwrite itself or its own operand.
-/

namespace CellMachine.Machine

variable {m last : Machine} {d : Nat} {session : List Request}

/-- The machine waits for a value to store in a cell. -/
structure Waits (m : Machine) (d : Nat) : Prop where
  status : m.status = .suspended
  empty : m.input.queue = []
  effect : m.effect = .ok (.accept d)

/-- With one instruction the machine stores a value in a cell and leaves others to be read. -/
structure Accepts (m : Machine) (d : Nat) (v : Int) (vs : List Int) (next : Machine) : Prop where
  stored : next.memory.get d = v
  elsewhere : ∀ a ≠ d, next.memory.get a = m.memory.get a
  input : next.input.queue = vs
  output : next.output = m.output
  ip : next.ip = m.ip + 2
  base : next.base = m.base
  steps : next.steps = m.steps + 1
  status : next.status = .running

/-- However values are fed to the machine, the next run begins with one instruction, which stores
the first of them in this cell. -/
def Resumes (m : Machine) (d : Nat) : Prop :=
  ∀ session v vs, .run ∉ session → fed session = v :: vs →
    ∃ answers ready next, (∀ fuel, m.serve fuel session = some (answers, ready)) ∧
      ready = { m with input := ⟨v :: vs⟩, output := ready.output } ∧
      drained answers ++ ready.output.queue = m.output.queue ∧
      ready.awake.step.outcome = .ok next ∧ Accepts ready d v vs next ∧
      ∀ fuel, ready.run (fuel + 1) = proceed fuel next ready.awake.step.log.toArray

/-! ### The instruction that waits -/

/-- What stores the next input value is an input instruction with its one operand resolved. -/
theorem input_of_accept (h : m.effect = .ok (.accept d)) :
    0 ≤ m.ip ∧ 0 ≤ m.word ∧ m.code = 3 ∧ m.operands m.word [.write] = .ok [(d : Int)] := by
  obtain ⟨hip, hword, -⟩ := operands_of_effect h
  have hcode := (code_of_effect h).1.2 ⟨d, rfl⟩
  obtain ⟨operands, hoperands, husable, heffect⟩ := operands_of_code .input hcode h
  obtain ⟨a, _, ha, hnil, rfl⟩ := List.forall₂_cons_left_iff.1 husable
  obtain rfl := List.forall₂_nil_left_iff.1 hnil
  obtain rfl := Effect.accept.inj heffect
  refine ⟨hip, hword, hcode, ?_⟩
  rw [Int.toNat_of_nonneg ha]
  exact hoperands

/-- A run that ends suspended ends at such an instruction. -/
theorem RunsTo.waits (h : RunsTo m last (.ok .suspended)) : ∃ d, Waits last d := by
  obtain ⟨hqueue, d, heffect⟩ := h.blocked
  exact ⟨d, h.rested.1, hqueue, heffect⟩

/-! ### Requests to a machine that waits -/

/-- What was not taken from the output makes no difference. -/
theorem Waits.output (h : Waits m d) (output : Channel) : Waits { m with output } d :=
  ⟨h.status, h.empty, (effect_congr (fun _ => rfl) rfl rfl).trans h.effect⟩

/-- Running a machine that waits changes nothing. -/
theorem Waits.run (h : Waits m d) (fuel : Nat) :
    m.run (fuel + 1) = some ⟨m, m.awake.step.log, .ok .suspended⟩ := by
  have hstep : m.awake.step.outcome = .ok m := by
    have hblocked := step_of_blocked (m := m.awake) h.effect h.empty
    have hself : { m.awake with status := .suspended } = m := by rw [← h.status]; rfl
    rwa [hself] at hblocked
  rw [run_of_live ⟨by simp [h.status], by simp [h.status]⟩, proceed_of_ok hstep,
    if_neg (by simp [h.status]), h.status]
  simp

theorem serve_of_ask {fuel : Nat} {q : Request} {answer : Answer} {next : Machine}
    {answers : List Answer} (hask : m.ask fuel q = some (answer, next))
    (hserve : next.serve fuel session = some (answers, last)) :
    m.serve fuel (q :: session) = some (answer :: answers, last) := by
  simp [serve, hask, hserve]

/-- Without a run, a session changes nothing but what waits in the channels. -/
theorem serve_of_no_run (m : Machine) (h : .run ∉ session) :
    ∃ answers output,
      (∀ fuel, m.serve fuel session =
        some (answers, { m with input := m.input.extend (fed session), output })) ∧
      drained answers ++ output.queue = m.output.queue := by
  induction session generalizing m with
  | nil => exact ⟨[], m.output, fun _ => by simp [serve, Channel.extend], rfl⟩
  | cons q session ih =>
      obtain ⟨hq, hsession⟩ := not_or.1 (mt List.mem_cons.2 h)
      cases q with
      | feed values =>
          obtain ⟨answers, output, hserve, hdrained⟩ := ih (m.feed values) hsession
          have hinput : (m.feed values).input.extend (fed session) =
              m.input.extend (fed (.feed values :: session)) := Channel.extend_extend ..
          rw [hinput] at hserve
          exact ⟨.fed :: answers, output, fun fuel => serve_of_ask rfl (hserve fuel), hdrained⟩
      | drain =>
          obtain ⟨answers, output, hserve, hdrained⟩ := ih m.drain.2 hsession
          refine ⟨.drained m.output.queue :: answers, output,
            fun fuel => serve_of_ask rfl (hserve fuel), ?_⟩
          simpa [drained, Answer.values] using hdrained
      | run => exact absurd rfl hq

/-- Without a value to read, a session leaves a machine that waits where it is. -/
theorem Waits.serve (h : Waits m d) (hfed : fed session = []) :
    ∃ answers output,
      (∀ fuel, m.serve (fuel + 1) session = some (answers, { m with output })) ∧
      drained answers ++ output.queue = m.output.queue ∧
      ∀ o ∈ outcomes answers, o = .ok .suspended := by
  induction session generalizing m with
  | nil => exact ⟨[], m.output, fun _ => rfl, rfl, by simp [outcomes]⟩
  | cons q session ih =>
      rw [fed_cons, List.append_eq_nil_iff] at hfed
      obtain ⟨hq, hfed⟩ := hfed
      cases q with
      | feed values =>
          replace hq : values = [] := hq
          obtain ⟨answers, output, hserve, hdrained, houts⟩ := ih h hfed
          refine ⟨.fed :: answers, output,
            fun fuel => serve_of_ask ?_ (hserve fuel), hdrained, houts⟩
          rw [ask, hq, feed_nil]
      | drain =>
          obtain ⟨answers, output, hserve, hdrained, houts⟩ := ih (h.output {}) hfed
          refine ⟨.drained m.output.queue :: answers, output,
            fun fuel => serve_of_ask rfl (hserve fuel), ?_, houts⟩
          simpa [drained, Answer.values] using hdrained
      | run =>
          obtain ⟨answers, output, hserve, hdrained, houts⟩ := ih h hfed
          refine ⟨.ran (.ok .suspended) :: answers, output,
            fun fuel => serve_of_ask ?_ (hserve fuel), hdrained, ?_⟩
          · rw [ask, h.run fuel]
            rfl
          · simpa [outcomes, Answer.outcome?] using houts

/-- Once there is input, the instruction completes. -/
theorem Waits.accepts (h : Waits m d) (v : Int) (vs : List Int) (output : Channel) :
    ∃ next, { m with input := ⟨v :: vs⟩, output }.awake.step.outcome = .ok next ∧
      Accepts { m with input := ⟨v :: vs⟩, output } d v vs next := by
  have heffect : { m with input := ⟨v :: vs⟩, output }.awake.effect = .ok (.accept d) :=
    (effect_congr (fun _ => rfl) rfl rfl).trans h.effect
  refine ⟨_, (attempt_iff (by simp)).1 (.accepted heffect rfl), ?_⟩
  exact ⟨Memory.get_set_self _ _ _, fun a ha => Memory.get_set_of_ne _ v ha.symm, rfl, rfl, rfl,
    rfl, rfl, rfl⟩

/-- A run begins with an attempt and, if that completes, is what follows it. -/
theorem run_of_step {next : Machine} (hlive : m.Live) (hstep : m.awake.step.outcome = .ok next)
    (hrun : next.status = .running) (fuel : Nat) :
    m.run (fuel + 1) = proceed fuel next m.awake.step.log.toArray := by
  rw [run_of_live hlive, proceed_of_ok hstep, if_pos hrun]
  simp

theorem Waits.resumes (h : Waits m d) : Resumes m d := by
  intro session v vs hsession hfed
  obtain ⟨answers, output, hserve, hdrained⟩ := serve_of_no_run m hsession
  have hinput : m.input.extend (fed session) = ⟨v :: vs⟩ := by
    rw [Channel.extend, h.empty, hfed, List.nil_append]
  rw [hinput] at hserve
  obtain ⟨next, hstep, haccepts⟩ := h.accepts v vs output
  refine ⟨answers, _, next, hserve, rfl, hdrained, hstep, haccepts, ?_⟩
  exact run_of_step ⟨by simp [h.status], by simp [h.status]⟩ hstep haccepts.status

end CellMachine.Machine
