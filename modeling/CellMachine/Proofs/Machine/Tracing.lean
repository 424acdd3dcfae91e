import CellMachine.Proofs.Machine.InPlace
import CellMachine.Proofs.Machine.Refusal
import CellMachine.Proofs.Machine.Simulation

/-!
# CellMachine.Proofs.Machine.Tracing

**A trace is transparent and complete, as far as it can be written.** Whether a machine is traced
decides what its attempts note and nothing else. If the registers are written, a traced attempt
comes to what an untraced one comes to, and notes them in front of what the other notes
(`stepWithin_traced`); if they are not, it is refused and changes nothing (`stepWithin_unwritten`).
So a history goes the same way with a trace as without (`shadowsAll_trail`), up to the first attempt
whose registers are not written, where the operation that makes it is refused (`handle_unwritten`).
-/

namespace CellMachine.Machine

/-- The machine with its trace on or off. -/
def withTrace (m : Machine) (trace : Bool) : Machine := { m with trace }

/-- The registers as they are noted before an attempt; below address zero there is no word. -/
def dump (m : Machine) : Event :=
  .registers {
    ip := m.ip
    base := m.base
    word := if m.ip < 0 then none else some (m.memory.get m.ip.toNat)
    waiting := m.input.queue.length
    emitted := m.output.queue.length }

/-- What an attempt notes, the registers before it apart. -/
def messages (m : Machine) : List Event :=
  match m.effect with
  | .error _ => []
  | .ok effect => m.notes effect

/-- What of this is written: all, or nothing. -/
def written (limit : DigitLimit) (m : Machine) : List Event :=
  if m.messages.all limit.notes then m.messages else []

/-- What is noted in attempts that are traced: the registers before each, and what else is written
in it. -/
def woven (limit : DigitLimit) (attempts : List Machine) : List Event :=
  attempts.flatMap fun a => a.dump :: a.written limit

variable {limit : DigitLimit} {m a : Machine} {front back : List Machine} {fuel : Nat}
variable {op : Operation} {x x' : Limited Reply}

@[simp] theorem status_withTrace (m : Machine) (trace : Bool) :
    (m.withTrace trace).status = m.status := rfl

theorem live_withTrace (h : m.Live) (trace : Bool) : (m.withTrace trace).Live := h

/-! ### One attempt -/

theorem effect_withTrace (m : Machine) (trace : Bool) : (m.withTrace trace).effect = m.effect :=
  effect_congr (fun _ => rfl) rfl rfl

theorem perform_withTrace (m : Machine) (trace : Bool) (effect : Effect) :
    (m.withTrace trace).perform effect = (m.perform effect).withTrace trace := by
  cases effect with
  | accept address =>
      -- both find the same input, so both wait or both store its front
      rcases hq : m.input with ⟨_ | ⟨value, rest⟩⟩
      · simp only [withTrace, perform, hq, Channel.pop?_nil]
      · simp only [withTrace, perform, hq, Channel.pop?_cons]
  | _ => rfl

theorem countStep_withTrace (m : Machine) (trace : Bool) :
    (m.withTrace trace).countStep = m.countStep.withTrace trace := by
  unfold countStep
  rw [status_withTrace]
  split <;> rfl

theorem giveUp_withTrace (m : Machine) (trace : Bool) (effect : Effect) :
    (m.withTrace trace).giveUp effect = (m.giveUp effect).withTrace trace := by
  cases effect with
  | accept address =>
      rcases hq : m.input with ⟨_ | ⟨value, rest⟩⟩
      · simp only [withTrace, giveUp, hq, Channel.pop?_nil]
      · simp only [withTrace, giveUp, hq, Channel.pop?_cons]
  | _ => rfl

/-- Without a limit an attempt comes to the same with a trace and without. -/
theorem outcome_step_withTrace (m : Machine) (trace : Bool) :
    (m.withTrace trace).step.outcome = m.step.outcome.map (withTrace · trace) := by
  rw [outcome_step, outcome_step, effect_withTrace]
  cases m.effect with
  | error fault => rfl
  | ok effect =>
      simp only [Except.map]
      rw [perform_withTrace, countStep_withTrace]

/-- An attempt that is not traced, by its effect. -/
theorem stepWithin_untraced (hm : m.trace = false) :
    m.stepWithin limit =
      match m.effect with
      | .error fault => ⟨[], limit.raise (.error fault), m⟩
      | .ok effect =>
        if (m.notes effect).all limit.notes then
          ⟨m.notes effect, .ok (.ok ()), (m.perform effect).countStep⟩
        else ⟨[], .error (.write limit), m.giveUp effect⟩ := by
  have htrace : m.traceNotes = [] := by simp [traceNotes, hm]
  rw [stepWithin, htrace]
  rfl

/-- What is written of its messages is all that an attempt notes that is not traced. -/
theorem log_stepWithin_untraced (hm : m.trace = false) :
    (m.stepWithin limit).log = m.written limit := by
  rw [stepWithin_untraced hm, written, messages]
  cases m.effect with
  | error fault => rfl
  | ok effect =>
      dsimp only
      split <;> rfl

/-- If the registers are written, a trace only notes them. -/
theorem stepWithin_traced (hm : m.trace = false) (h : limit.notes m.dump = true) :
    (m.withTrace true).stepWithin limit =
      ⟨m.dump :: (m.stepWithin limit).log, (m.stepWithin limit).outcome,
        (m.stepWithin limit).machine.withTrace true⟩ := by
  have htrace : (m.withTrace true).traceNotes = [m.dump] := rfl
  have hnotes : ∀ effect, (m.withTrace true).notes effect = m.notes effect := fun _ => rfl
  rw [stepWithin_untraced hm, stepWithin, htrace, if_pos (by simp [h]), effect_withTrace]
  cases m.effect with
  | error fault => rfl
  | ok effect =>
      dsimp only
      rw [hnotes, perform_withTrace, countStep_withTrace, giveUp_withTrace]
      split <;> rfl

/-- If the registers are not written, a traced attempt is refused and leaves the machine alone. -/
theorem stepWithin_unwritten (h : limit.notes m.dump = false) :
    (m.withTrace true).stepWithin limit = ⟨[], .error (.write limit), m.withTrace true⟩ := by
  have htrace : (m.withTrace true).traceNotes = [m.dump] := rfl
  rw [stepWithin, htrace, if_neg (by simp [h])]

/-- No attempt switches a trace on or off. -/
theorem trace_stepWithin (limit : DigitLimit) (m : Machine) :
    (m.stepWithin limit).machine.trace = m.trace := by
  -- with its trace as it is, the machine is itself
  have hself : m.withTrace m.trace = m := rfl
  have hperform : ∀ effect, (m.perform effect).countStep.trace = m.trace := by
    intro effect
    have hdone := countStep_withTrace (m.perform effect) m.trace
    rw [← perform_withTrace, hself] at hdone
    rw [hdone]
    rfl
  have hgiveUp : ∀ effect, (m.giveUp effect).trace = m.trace := by
    intro effect
    have hleft := giveUp_withTrace m m.trace effect
    rw [hself] at hleft
    rw [hleft]
    rfl
  unfold stepWithin
  split
  · cases m.effect with
    | error fault => rfl
    | ok effect =>
        dsimp only
        split
        · exact hperform effect
        · exact hgiveUp effect
  · rfl

/-! ### Runs -/

theorem trace_of_mem_tries (h : a ∈ m.triesWithin limit fuel) : a.trace = m.trace := by
  induction fuel generalizing m with
  | zero => cases h
  | succ fuel ih =>
      by_cases hstep : (m.stepWithin limit).outcome = .ok (.ok ())
      · rw [triesWithin_of_ok hstep] at h
        rcases List.mem_cons.1 h with rfl | h
        · rfl
        · split at h
          · exact (ih h).trans (trace_stepWithin limit m)
          · cases h
      · rw [triesWithin_of_not_ok hstep, List.mem_singleton] at h
        rw [h]

/-- The registers of all its attempts written, the loop of a run comes to the same with a trace. -/
theorem proceedWithin_traced (hm : m.trace = false)
    (h : ∀ a ∈ m.triesWithin limit fuel, limit.notes a.dump = true) (log log' : Array Event) :
    proceedWithin limit fuel (m.withTrace true) log' =
      (proceedWithin limit fuel m log).map fun r =>
        ⟨log'.toList ++ woven limit (m.triesWithin limit fuel), r.outcome,
          r.machine.withTrace true⟩ := by
  induction fuel generalizing m log log' with
  | zero => rfl
  | succ fuel ih =>
      have hdump : limit.notes m.dump = true := by
        by_cases hstep : (m.stepWithin limit).outcome = .ok (.ok ())
        · exact h m (by simp [triesWithin_of_ok hstep])
        · exact h m (by simp [triesWithin_of_not_ok hstep])
      have hfirst : m.dump :: (m.stepWithin limit).log = woven limit [m] := by
        simp [woven, log_stepWithin_untraced hm]
      have htraced := stepWithin_traced hm hdump
      rw [hfirst] at htraced
      cases hstep : (m.stepWithin limit).outcome with
      | error refusal =>
          rw [proceedWithin_of_refused hstep,
            proceedWithin_of_refused (m := m.withTrace true) (by rw [htraced, hstep]), htraced,
            triesWithin_of_not_ok (by simp [hstep])]
          simp
      | ok result =>
          rcases result with fault | _
          · rw [proceedWithin_of_fault hstep,
              proceedWithin_of_fault (m := m.withTrace true) (by rw [htraced, hstep]), htraced,
              triesWithin_of_not_ok (by simp [hstep])]
            simp [withTrace]
          · have hnext := trace_stepWithin limit m
            rw [triesWithin_of_ok hstep] at h
            rw [proceedWithin_of_ok hstep,
              proceedWithin_of_ok (m := m.withTrace true) (by rw [htraced, hstep]), htraced,
              triesWithin_of_ok hstep, status_withTrace]
            by_cases hrun : (m.stepWithin limit).machine.status = .running
            · rw [if_pos hrun] at h
              simp only [if_pos hrun]
              rw [ih (hnext.trans hm) (fun a ha => h a (List.mem_cons_of_mem _ ha))
                (log ++ (m.stepWithin limit).log)]
              simp [woven]
            · simp only [if_neg hrun]
              simp

/-- The loop of a traced run ends in front of the first attempt whose registers are not written. -/
theorem proceedWithin_unwritten (hm : m.trace = false)
    (htries : m.triesWithin limit fuel = front ++ a :: back)
    (hfront : ∀ b ∈ front, limit.notes b.dump = true) (ha : limit.notes a.dump = false)
    (log : Array Event) :
    proceedWithin limit fuel (m.withTrace true) log =
      some ⟨log.toList ++ woven limit front, .error (.write limit), a.withTrace true⟩ := by
  induction fuel generalizing m front log with
  | zero => simp [triesWithin] at htries
  | succ fuel ih =>
      obtain ⟨later, hlater⟩ : ∃ later, m.triesWithin limit (fuel + 1) = m :: later := ⟨_, rfl⟩
      rw [hlater] at htries
      cases front with
      | nil =>
          obtain ⟨rfl, -⟩ := List.cons.inj htries
          have hrefused := stepWithin_unwritten ha
          rw [proceedWithin_of_refused (m := m.withTrace true) (by rw [hrefused]), hrefused]
          simp [woven]
      | cons b front =>
          obtain ⟨rfl, rfl⟩ := List.cons.inj htries
          obtain ⟨hdump, hfront⟩ := List.forall_mem_cons.1 hfront
          have htraced := stepWithin_traced hm hdump
          by_cases hstep : (m.stepWithin limit).outcome = .ok (.ok ())
          · rw [triesWithin_of_ok hstep] at hlater
            have hnext := trace_stepWithin limit m
            by_cases hrun : (m.stepWithin limit).machine.status = .running
            · rw [if_pos hrun] at hlater
              rw [proceedWithin_of_ok (m := m.withTrace true) (by rw [htraced, hstep]), htraced,
                status_withTrace]
              simp only [if_pos hrun]
              rw [ih (hnext.trans hm) (List.cons.inj hlater).2 hfront]
              simp [woven, log_stepWithin_untraced hm]
            · simp [hrun] at hlater
          · simp [triesWithin_of_not_ok hstep] at hlater

theorem trace_proceedWithin {log : Array Event} {r : Limited (Except Fault Status)}
    (h : proceedWithin limit fuel m log = some r) : r.machine.trace = m.trace := by
  induction fuel generalizing m log with
  | zero => cases h
  | succ fuel ih =>
      have hnext := trace_stepWithin limit m
      obtain ⟨refusal, -, rfl⟩ | ⟨fault, -, rfl⟩ | ⟨-, -, h⟩ | ⟨-, -, rfl⟩ := proceedWithin_cases h
      · exact hnext
      · exact hnext
      · exact (ih h).trans hnext
      · exact hnext

/-- No run switches a trace on or off. -/
theorem trace_runWithin {r : Limited (Except Fault Status)} (h : m.runWithin limit fuel = some r) :
    r.machine.trace = m.trace := by
  unfold runWithin at h
  split at h
  · obtain rfl := Option.some.inj h
    rfl
  · obtain rfl := Option.some.inj h
    rfl
  · exact (trace_proceedWithin h).trans rfl

theorem trace_of_mem_run (h : a ∈ Operation.run.triesWithin limit fuel m) : a.trace = m.trace := by
  by_cases hlive : m.Live
  · rw [triesWithin_run_of_live hlive] at h
    exact (trace_of_mem_tries h).trans rfl
  · rw [triesWithin_run_of_not_live hlive] at h
    cases h

/-- The registers of all its attempts written, a run comes to the same with a trace. -/
theorem runWithin_traced (hm : m.trace = false)
    (h : ∀ a ∈ Operation.run.triesWithin limit fuel m, limit.notes a.dump = true) :
    (m.withTrace true).runWithin limit fuel =
      (m.runWithin limit fuel).map fun r =>
        ⟨woven limit (Operation.run.triesWithin limit fuel m), r.outcome,
          r.machine.withTrace true⟩ := by
  by_cases hlive : m.Live
  · rw [triesWithin_run_of_live hlive] at h ⊢
    rw [runWithin_of_live hlive, runWithin_of_live (live_withTrace hlive true)]
    exact proceedWithin_traced (m := m.awake) hm h #[] #[]
  · rw [triesWithin_run_of_not_live hlive]
    unfold runWithin
    rcases not_live_iff.1 hlive with hstatus | hstatus
    · rw [status_withTrace, hstatus]
      rfl
    · rw [status_withTrace, hstatus]
      rfl

/-! ### Operations -/

/-- What an operation notes beside its attempts, as far as it is written. -/
def Operation.asideWithin (limit : DigitLimit) (m : Machine) (op : Operation) : List Event :=
  if (op.aside m).all limit.notes then op.aside m else []

/-- What came of an operation for a machine `m` that is not traced, and for the same machine with
its trace on. -/
structure Shadows (limit : DigitLimit) (fuel : Nat) (m : Machine) (op : Operation)
    (x x' : Limited Reply) : Prop where
  /-- They give the same reply, or are both refused. -/
  outcome : x'.outcome = x.outcome
  /-- They are left the same but for the trace. -/
  machine : x'.machine = { x.machine with trace := true }
  /-- The first is still not traced. -/
  untraced : x.machine.trace = false
  /-- The first notes the messages of its attempts, as far as they are written. -/
  plain : x.log = op.asideWithin limit m ++ (op.triesWithin limit fuel m).flatMap (written limit)
  /-- The second notes in front of the messages of each attempt the registers before it. -/
  traced : x'.log = op.asideWithin limit m ++ woven limit (op.triesWithin limit fuel m)

/-- The registers of all its attempts written, an operation comes to the same with a trace. -/
theorem shadows_handle (hm : m.trace = false)
    (h : ∀ a ∈ op.triesWithin limit fuel m, limit.notes a.dump = true) :
    Option.Rel (Shadows limit fuel m op) (m.handleWithin limit fuel op)
      ((m.withTrace true).handleWithin limit fuel op) := by
  cases op with
  | feed | drain | read => exact .some ⟨rfl, rfl, hm, rfl, rfl⟩
  | write address value =>
      -- neither the cells nor the log of a write depend on a trace
      have hmemory : (m.withTrace true).memory = m.memory := rfl
      simp only [handleWithin, hmemory]
      split
      · rename_i hlog
        have haside : (Operation.write address value).asideWithin limit m =
            (m.memory.write address value).log := if_pos hlog
        refine .some ⟨rfl, ?_, ?_, ?_, ?_⟩
        · cases (m.memory.write address value).outcome <;> rfl
        · cases (m.memory.write address value).outcome <;> exact hm
        · rw [haside]
          exact (List.append_nil _).symm
        · rw [haside]
          exact (List.append_nil _).symm
      · rename_i hlog
        have haside : (Operation.write address value).asideWithin limit m = [] := if_neg hlog
        exact .some ⟨rfl, rfl, hm, haside.symm ▸ rfl, haside.symm ▸ rfl⟩
  | step =>
      have htraced := stepWithin_traced hm (h m (List.mem_singleton_self m))
      rw [log_stepWithin_untraced hm] at htraced
      refine .some ⟨?_, ?_, (trace_stepWithin limit m).trans hm, ?_, ?_⟩
      · simp only [htraced]
      · simp only [htraced]
        rfl
      · simp [log_stepWithin_untraced hm, Operation.asideWithin, Operation.aside,
          Operation.triesWithin]
      · simp [htraced, Operation.asideWithin, Operation.aside, Operation.triesWithin, woven]
  | run =>
      have haside : Operation.run.asideWithin limit m = [] := rfl
      rw [handleWithin, handleWithin, runWithin_traced hm h]
      cases hrun : m.runWithin limit fuel with
      | none => exact .none
      | some r =>
          refine .some ⟨rfl, rfl, (trace_runWithin hrun).trans hm, ?_, ?_⟩
          · rw [haside, List.nil_append]
            refine (log_of_runWithin hrun).trans (List.flatMap_congr ?_)
            intro a ha
            exact log_stepWithin_untraced ((trace_of_mem_run ha).trans hm)
          · rw [haside]
            rfl

/-- A traced operation is refused in front of its first attempt whose registers are not written. -/
theorem handle_unwritten (hm : m.trace = false)
    (htries : op.triesWithin limit fuel m = front ++ a :: back)
    (hfront : ∀ b ∈ front, limit.notes b.dump = true) (ha : limit.notes a.dump = false) :
    (m.withTrace true).handleWithin limit fuel op =
      some ⟨woven limit front, .error (.write limit), { a with trace := true }⟩ := by
  cases op with
  | feed | drain | read | write => simp [Operation.triesWithin] at htries
  | step =>
      obtain ⟨rfl, rfl⟩ : front = [] ∧ m = a := by
        cases front with
        | nil => exact ⟨rfl, (List.cons.inj htries).1⟩
        | cons b front => simp [Operation.triesWithin] at htries
      simp only [handleWithin, stepWithin_unwritten ha]
      rfl
  | run =>
      by_cases hlive : m.Live
      · rw [triesWithin_run_of_live hlive] at htries
        rw [handleWithin, runWithin_of_live (live_withTrace hlive true)]
        have hrun := proceedWithin_unwritten (m := m.awake) hm htries hfront ha #[]
        exact congrArg (Option.map _) hrun
      · rw [triesWithin_run_of_not_live hlive] at htries
        simp at htries

/-! ### Histories -/

/-- The same of each operation of a history, for the machine that it found. -/
inductive ShadowsAll (limit : DigitLimit) (fuel : Nat) :
    Machine → List Operation → List (Limited Reply) → List (Limited Reply) → Prop where
  | nil {m : Machine} : ShadowsAll limit fuel m [] [] []
  | cons {m : Machine} {op : Operation} {x x' : Limited Reply} {history : List Operation}
      {xs xs' : List (Limited Reply)} : Shadows limit fuel m op x x' →
      ShadowsAll limit fuel x.machine history xs xs' →
      ShadowsAll limit fuel m (op :: history) (x :: xs) (x' :: xs')

/-- The machine that is left when this has come of the operations of a history. -/
def leaves (m : Machine) : List (Limited Reply) → Machine
  | [] => m
  | x :: xs => x.machine.leaves xs

theorem shadowsAll_trail (hm : m.trace = false) {history : List Operation}
    (h : ∀ a ∈ m.triesOfWithin limit fuel history, limit.notes a.dump = true) :
    Option.Rel (ShadowsAll limit fuel m history) (m.trailWithin limit fuel history)
      ((m.withTrace true).trailWithin limit fuel history) := by
  induction history generalizing m with
  | nil => exact .some .nil
  | cons op history ih =>
      have hop : ∀ a ∈ op.triesWithin limit fuel m, limit.notes a.dump = true := by
        intro a ha
        exact h a (List.mem_append_left _ ha)
      have hshadows := rel_of_eq (shadows_handle hm hop) fun x x' hx _ hsame =>
        (⟨hx, hsame⟩ : m.handleWithin limit fuel op = some x ∧ Shadows limit fuel m op x x')
      apply rel_bind hshadows
      intro x x' hboth
      obtain ⟨hx, hsame⟩ := hboth
      rw [triesOfWithin_cons hx] at h
      -- the second machine is the first one traced, so the rest of the history shadows as well
      rw [show x'.machine = x.machine.withTrace true from hsame.machine]
      apply rel_bind (ih hsame.untraced fun a ha => h a (List.mem_append_right _ ha))
      intro later later' hlater
      exact .some (.cons hsame hlater)

/-- One operation more. -/
theorem trail_concat {history : List Operation} {xs : List (Limited Reply)}
    (h : m.trailWithin limit fuel history = some xs) (op : Operation) :
    m.trailWithin limit fuel (history ++ [op]) =
      ((m.leaves xs).handleWithin limit fuel op).map fun x => xs ++ [x] := by
  induction history generalizing m xs with
  | nil =>
      obtain rfl := Option.some.inj h
      cases hx : m.handleWithin limit fuel op <;> simp [trailWithin, leaves, hx]
  | cons first history ih =>
      obtain ⟨x, hx, h⟩ := Option.bind_eq_some_iff.1 h
      obtain ⟨later, hlater, h⟩ := Option.bind_eq_some_iff.1 h
      obtain rfl := Option.some.inj h
      rw [List.cons_append, trailWithin, hx, Option.bind_eq_bind, Option.bind_some, ih hlater,
        leaves]
      cases (x.machine.leaves later).handleWithin limit fuel op <;> rfl

theorem ShadowsAll.leaves {history : List Operation} {xs xs' : List (Limited Reply)}
    (h : ShadowsAll limit fuel m history xs xs') (hm : m.trace = false) :
    (m.leaves xs).trace = false ∧
      (m.withTrace true).leaves xs' = (m.leaves xs).withTrace true := by
  induction h with
  | nil => exact ⟨hm, rfl⟩
  | @cons _ _ x x' _ _ _ hsame _ ih =>
      obtain ⟨huntraced, hleaves⟩ := ih hsame.untraced
      refine ⟨huntraced, ?_⟩
      rw [Machine.leaves, Machine.leaves, show x'.machine = x.machine.withTrace true from
        hsame.machine, hleaves]

/-- In front of the first attempt whose registers are not written a history goes the same way with a
trace as without, and there the operation that makes the attempt is refused. -/
theorem trail_unwritten (hm : m.trace = false) {history : List Operation}
    {xs : List (Limited Reply)} (hxs : m.trailWithin limit fuel history = some xs)
    (hhistory : ∀ b ∈ m.triesOfWithin limit fuel history, limit.notes b.dump = true)
    (htries : op.triesWithin limit fuel (m.leaves xs) = front ++ a :: back)
    (hfront : ∀ b ∈ front, limit.notes b.dump = true) (ha : limit.notes a.dump = false) :
    ∃ xs', ShadowsAll limit fuel m history xs xs' ∧
      (m.withTrace true).trailWithin limit fuel (history ++ [op]) =
        some (xs' ++ [⟨woven limit front, .error (.write limit), { a with trace := true }⟩]) := by
  have hall := shadowsAll_trail hm hhistory
  rw [hxs] at hall
  cases hxs' : (m.withTrace true).trailWithin limit fuel history with
  | none =>
      rw [hxs'] at hall
      cases hall
  | some xs' =>
      rw [hxs'] at hall
      cases hall with
      | some hall =>
          obtain ⟨huntraced, hleaves⟩ := hall.leaves hm
          refine ⟨xs', hall, ?_⟩
          rw [trail_concat hxs', hleaves, handle_unwritten huntraced htries hfront ha]
          rfl

/-! ### The look at the memory -/

theorem text_registers (r : Registers) :
    r.text =
      "IP:" ++ toString r.ip ++ " RB:" ++ toString r.base ++ " W:" ++ Fault.wordText r.word ++
        " IN:" ++ toString r.waiting ++ " OUT:" ++ toString r.emitted := by
  have htext : ∀ s : String, toString s = s := fun _ => rfl
  rw [Registers.text]
  simp only [htext]

/-- The registers on one line of a log. -/
theorem line_dump (m : Machine) :
    m.dump.line = ⟨.debug,
      "IP:" ++ toString m.ip ++ " RB:" ++ toString m.base ++
        " W:" ++ (if m.ip < 0 then "None" else toString (m.memory.get m.ip.toNat)) ++
        " IN:" ++ toString m.input.queue.length ++
        " OUT:" ++ toString m.output.queue.length⟩ := by
  have hword : (if m.ip < 0 then "None" else toString (m.memory.get m.ip.toNat)) =
      Fault.wordText (if m.ip < 0 then none else some (m.memory.get m.ip.toNat)) := by
    split <;> rfl
  rw [hword]
  exact congrArg (LogLine.mk .debug) (text_registers _)

/-- A traced attempt reads the cell it shows where faults are located, and yet no fault arises from
it: in place, too, an attempt comes to the same with a trace and without. -/
theorem attempt_withTrace (m : Machine) (trace : Bool) :
    InPlace.attempt (m.withTrace trace) =
      ((InPlace.attempt m).1, (InPlace.attempt m).2.withTrace trace) := by
  rw [InPlace.attempt_eq, InPlace.attempt_eq, outcome_step_withTrace]
  cases m.step.outcome <;> rfl

/-- **A trace is transparent and complete, as far as it can be written.** Load two machines with the
same image and input, one of them traced, and do the same with both. As long as the registers that
fall due are written, after each operation they have given the same reply, fault or not, and are in
the same state; the log of the traced machine is that of the other with the registers as they are
before each attempt, however it turns out, inserted before its messages. At the first attempt whose
registers are not written, the traced machine is refused, with the attempts before it done and
nothing of this one. The look at the cell that is shown faults no attempt, also where the
instruction pointer is below zero and there is no cell to show. -/
theorem trace_transparent (limit : DigitLimit) (image input : List Int) (fuel : Nat) :
    (∀ history,
      (∀ a ∈ (load image input false).triesOfWithin limit fuel history,
        limit.notes a.dump = true) →
      Option.Rel (ShadowsAll limit fuel (load image input false) history)
        ((load image input false).trailWithin limit fuel history)
        ((load image input true).trailWithin limit fuel history)) ∧
      (∀ history op xs front a back,
        (load image input false).trailWithin limit fuel history = some xs →
        (∀ b ∈ (load image input false).triesOfWithin limit fuel history,
          limit.notes b.dump = true) →
        op.triesWithin limit fuel ((load image input false).leaves xs) = front ++ a :: back →
        (∀ b ∈ front, limit.notes b.dump = true) → limit.notes a.dump = false →
        ∃ xs', ShadowsAll limit fuel (load image input false) history xs xs' ∧
          (load image input true).trailWithin limit fuel (history ++ [op]) =
            some (xs' ++
              [⟨woven limit front, .error (.write limit), { a with trace := true }⟩])) ∧
      (∀ (m : Machine) (trace : Bool), InPlace.attempt (m.withTrace trace) =
        ((InPlace.attempt m).1, (InPlace.attempt m).2.withTrace trace)) ∧
      ∀ m : Machine, m.dump.line = ⟨.debug,
        "IP:" ++ toString m.ip ++ " RB:" ++ toString m.base ++
          " W:" ++ (if m.ip < 0 then "None" else toString (m.memory.get m.ip.toNat)) ++
          " IN:" ++ toString m.input.queue.length ++
          " OUT:" ++ toString m.output.queue.length⟩ := by
  have hm : (load image input false).trace = false := rfl
  refine ⟨fun _ => shadowsAll_trail hm, ?_, attempt_withTrace, line_dump⟩
  intro history op xs front a back hxs hhistory htries hfront ha
  exact trail_unwritten hm hxs hhistory htries hfront ha

/-- A program that waits, is fed, and jumps below address zero, where it faults: the attempt that
waits, the one that goes on from there and the one that faults are preceded by the registers. And a
program that moves the relative base as far as cannot be written: its second attempt is refused. -/
theorem trace_transparent_below_zero :
    (((load [3, 0, 1105, 1, -5] [] true).trailWithin .usual 4 [.run, .feed [7], .run]).map
        (·.map Limited.log) =
        some [
          [.registers ⟨0, 0, some 3, 0, 0⟩, .suspended 0],
          [],
          [.registers ⟨0, 0, some 3, 1, 0⟩, .registers ⟨2, 0, some 1105, 0, 0⟩,
            .registers ⟨-5, 0, none, 0, 0⟩]] ∧
      Option.Rel (ShadowsAll .usual 4 (load [3, 0, 1105, 1, -5] [] false) [.run, .feed [7], .run])
        ((load [3, 0, 1105, 1, -5] [] false).trailWithin .usual 4 [.run, .feed [7], .run])
        ((load [3, 0, 1105, 1, -5] [] true).trailWithin .usual 4 [.run, .feed [7], .run])) ∧
    ∃ x, (load [109, Nat.pow 10 4300, 99] [] true).trailWithin .usual 2 [.run] = some [x] ∧
      x.log = [.registers ⟨0, 0, some 109, 0, 0⟩] ∧ x.outcome = .error (.write .usual) ∧
      x.machine.ip = 2 ∧ x.machine.status = .running := by
  constructor
  · exact ⟨by decide +kernel, (trace_transparent .usual [3, 0, 1105, 1, -5] [] 4).1
      [.run, .feed [7], .run] (by decide +kernel)⟩
  · have htries : (Operation.run.triesWithin .usual 2
        (load [109, Nat.pow 10 4300, 99] [] false)).map (fun b =>
          (DigitLimit.usual.notes b.dump, woven .usual [b], b.ip, b.status)) =
        [(true, [.registers ⟨0, 0, some 109, 0, 0⟩], 0, .running),
          (false, [.registers ⟨2, Nat.pow 10 4300, some 99, 0, 0⟩, .halted 2], 2, .running)] := by
      decide +kernel
    obtain ⟨b, later, hfirst, hb, hlater⟩ := List.map_eq_cons_iff.1 htries
    obtain ⟨a, rest, rfl, ha, -⟩ := List.map_eq_cons_iff.1 hlater
    simp only [Prod.mk.injEq] at hb ha
    obtain ⟨xs, hxs, hrefused⟩ := (trace_transparent .usual [109, Nat.pow 10 4300, 99] [] 2).2.1
      [] .run [] [b] a rest rfl (by simp [triesOfWithin]) hfirst (by simp [hb.1]) ha.1
    cases hxs
    exact ⟨_, hrefused, hb.2.1, rfl, ha.2.2.1, ha.2.2.2⟩

/-- A program that squares ten thirteen times, moves the relative base by the result and stops.
Without a trace the machine stops; with one it is refused, because the relative base is not
written. -/
theorem trace_transparent_unwritten :
    ((load ([1101, 10, 0, 59] ++ (List.replicate 13 [2, 59, 59, 59]).flatten ++ [9, 59, 99]) []
        false).trailWithin .usual 16 [.run]).map
        (·.map fun x => (x.outcome.isOk, x.machine.status)) = some [(true, .halted)] ∧
      ((load ([1101, 10, 0, 59] ++ (List.replicate 13 [2, 59, 59, 59]).flatten ++ [9, 59, 99]) []
        true).trailWithin .usual 16 [.run]).map
        (·.map fun x => (x.outcome.isOk, x.machine.status)) = some [(false, .running)] := by
  decide +kernel

end CellMachine.Machine
