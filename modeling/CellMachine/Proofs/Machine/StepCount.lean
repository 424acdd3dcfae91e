import CellMachine.Proofs.Machine.History

/-!
# CellMachine.Proofs.Machine.StepCount

**What the step counter counts.** An attempt completes its instruction unless it faults or finds
nothing to read, and the counter is to count the attempts that complete. It looks at the status
behind the attempt for this, and there a status may be left from an earlier attempt that waited: a
run sets the status before it attempts anything, a single step does not. So the counter overlooks
some attempts that complete, in single steps only, and counts all others (`steps_of_trail`).
-/

namespace CellMachine.Machine

/-- The attempt of this machine completes its instruction: it neither faults nor waits. -/
def completes (m : Machine) : Bool :=
  match m.effect with
  | .error _ => false
  | .ok (.accept _) => !m.input.queue.isEmpty
  | .ok _ => true

/-- The attempt of this machine completes its instruction, but the status is still that of an attempt
that waited, so it is not counted. An instruction that stops the machine sets the status. -/
def overlooked (m : Machine) : Bool :=
  match m.effect with
  | .ok .stop => false
  | _ => m.completes && m.status = .suspended

/-- Between two machines with these attempts, the counter has moved by one for each attempt that
completes, but for those that are overlooked. -/
def Counted (m : Machine) (tried : List Machine) (last : Machine) : Prop :=
  last.steps + tried.countP overlooked = m.steps + tried.countP completes

/-- The machine that a history leaves. -/
def reached (m : Machine) (handled : List Handled) : Machine :=
  handled.foldl (fun _ x => x.machine) m

variable {m next last : Machine} {tried : List Machine} {fuel : Nat} {op : Operation}

theorem Counted.nil (h : last.steps = m.steps) : Counted m [] last := h

theorem Counted.append {later : List Machine} (h : Counted m tried next)
    (h' : Counted next later last) : Counted m (tried ++ later) last := by
  unfold Counted at *
  rw [List.countP_append, List.countP_append]
  omega

/-- Where nothing is overlooked the counter is exact, and only there. -/
theorem Counted.exact_iff (h : Counted m tried last) :
    last.steps = m.steps + tried.countP completes ↔ ∀ a ∈ tried, a.overlooked = false := by
  unfold Counted at h
  have hzero : tried.countP overlooked = 0 ↔ ∀ a ∈ tried, a.overlooked = false := by
    simp [List.countP_eq_zero]
  rw [← hzero]
  omega

/-! ### One attempt -/

theorem completes_of_overlooked (h : m.overlooked = true) :
    m.completes = true ∧ m.status = .suspended := by
  unfold overlooked at h
  split at h
  · cases h
  · simpa using h

theorem overlooked_of_ne (h : m.status ≠ .suspended) : m.overlooked = false := by
  rw [← Bool.not_eq_true]
  exact fun ho => h (completes_of_overlooked ho).2

/-- An attempt that faults is not to be counted. -/
theorem counted_of_error {fault : Fault} (h : m.step.outcome = .error fault)
    (hlast : last.steps = m.steps) : Counted m [m] last := by
  have hc : m.completes = false := by
    rw [outcome_step] at h
    unfold completes
    cases he : m.effect with
    | error fault' => rfl
    | ok effect =>
        rw [he] at h
        cases h
  have ho : m.overlooked = false := by
    rw [← Bool.not_eq_true]
    intro ho
    rw [(completes_of_overlooked ho).1] at hc
    cases hc
  simp [Counted, hc, ho, hlast]

theorem steps_countStep (m : Machine) :
    m.countStep.steps = m.steps + if m.status = .suspended then 0 else 1 := by
  unfold countStep
  split <;> rfl

/-- An attempt that does not fault is counted if it completes and is not overlooked. -/
theorem counted_of_ok (h : m.step.outcome = .ok next) : Counted m [m] next := by
  rw [outcome_step] at h
  cases he : m.effect with
  | error fault =>
      rw [he] at h
      cases h
  | ok effect =>
      rw [he] at h
      obtain rfl := Except.ok.inj h
      rw [Counted, List.countP_singleton, List.countP_singleton, steps_countStep, overlooked,
        completes, he]
      cases effect with
      | accept address =>
          -- with nothing to read the status is set, and else it is what it was
          rcases hq : m.input with ⟨_ | ⟨value, rest⟩⟩
          · simp [perform, hq]
          · by_cases hs : m.status = .suspended <;> simp [perform, hq, hs]
      | stop => simp [perform]
      | store | emit | goto | shift =>
          by_cases hs : m.status = .suspended <;> simp [perform, hs]

/-! ### Runs and other operations -/

theorem counted_of_proceed {log : Array Event} {r : Run} (h : proceed fuel m log = some r) :
    Counted m (m.tries fuel) r.machine := by
  induction fuel generalizing m log with
  | zero => cases h
  | succ fuel ih =>
      cases hstep : m.step.outcome with
      | error fault =>
          rw [proceed_of_error hstep, Option.some.injEq] at h
          rw [tries_of_error hstep, ← h]
          exact counted_of_error hstep rfl
      | ok next =>
          have hnext := counted_of_ok hstep
          rw [proceed_of_ok hstep] at h
          rw [tries_of_ok hstep]
          by_cases hrun : next.status = .running
          · rw [if_pos hrun] at h ⊢
            exact hnext.append (ih h)
          · rw [if_neg hrun, Option.some.injEq] at h
            rw [if_neg hrun, ← h]
            exact hnext

theorem counted_of_handle {x : Handled} (h : m.handle fuel op = some x) :
    Counted m (op.tries fuel m) x.machine := by
  obtain ⟨htries, -, hsteps⟩ | ⟨fault, rfl, hstep, rfl⟩ | ⟨next, rfl, hstep, rfl⟩ |
    ⟨r, rfl, hm, hr, rfl⟩ := handle_cases h
  · rw [htries]
    exact .nil hsteps
  · exact counted_of_error hstep rfl
  · exact counted_of_ok hstep
  · rw [tries_run_of_live hm]
    exact counted_of_proceed (m := m.awake) hr

/-- A run sets the status before its first attempt, and goes on while it stays so. -/
theorem status_of_mem_tries {a : Machine} (hm : m.status = .running) (ha : a ∈ m.tries fuel) :
    a.status = .running := by
  induction fuel generalizing m with
  | zero => cases ha
  | succ fuel ih =>
      cases hstep : m.step.outcome with
      | error fault =>
          rw [tries_of_error hstep, List.mem_singleton] at ha
          rw [ha, hm]
      | ok next =>
          rw [tries_of_ok hstep, List.mem_cons] at ha
          rcases ha with rfl | ha
          · exact hm
          · split at ha
            · exact ih ‹_› ha
            · cases ha

/-- Only single steps overlook anything. -/
theorem overlooked_of_mem_tries {a : Machine} (hop : op ≠ .step) (ha : a ∈ op.tries fuel m) :
    a.overlooked = false := by
  cases op with
  | step => exact absurd rfl hop
  | run =>
      by_cases hm : m.Live
      · rw [tries_run_of_live hm] at ha
        rw [overlooked_of_ne]
        rw [status_of_mem_tries status_awake ha]
        decide
      · rw [tries_run_of_not_live hm] at ha
        cases ha
  | feed | drain | read | write => cases ha

/-! ### Histories -/

theorem counted_of_trail {history : List Operation} {handled : List Handled}
    (h : m.trail fuel history = some handled) :
    Counted m (m.triesOf fuel history) (m.reached handled) := by
  induction history generalizing m handled with
  | nil =>
      obtain rfl := Option.some.inj h
      exact .nil rfl
  | cons op history ih =>
      obtain ⟨x, later, hx, hlater, rfl⟩ := trail_cons_eq_some h
      rw [triesOf_cons hx]
      exact (counted_of_handle hx).append (ih hlater)

theorem overlooked_of_mem_triesOf {a : Machine} {history : List Operation}
    (hhistory : .step ∉ history) (ha : a ∈ m.triesOf fuel history) : a.overlooked = false := by
  induction history generalizing m with
  | nil => cases ha
  | cons op history ih =>
      rw [List.mem_cons, not_or] at hhistory
      rw [triesOf, List.mem_append] at ha
      rcases ha with ha | ha
      · exact overlooked_of_mem_tries (Ne.symm hhistory.1) ha
      · split at ha
        · cases ha
        · exact ih hhistory.2 ha

/-- **What the step counter counts.** Load any image with any input and do anything with the
machine. Then the counter is short of the attempts that completed their instruction, the one to stop
among them, by those that were overlooked: it is exact just if none was, and so it is where no
instruction was attempted singly. -/
theorem steps_of_trail (image input : List Int) (trace : Bool) (fuel : Nat)
    (history : List Operation) {handled : List Handled}
    (h : (load image input trace).trail fuel history = some handled) :
    ((load image input trace).reached handled).steps +
          ((load image input trace).triesOf fuel history).countP overlooked =
        ((load image input trace).triesOf fuel history).countP completes ∧
      (((load image input trace).reached handled).steps =
          ((load image input trace).triesOf fuel history).countP completes ↔
        ∀ a ∈ (load image input trace).triesOf fuel history, a.overlooked = false) ∧
      (.step ∉ history →
        ((load image input trace).reached handled).steps =
          ((load image input trace).triesOf fuel history).countP completes) := by
  have hcounted := counted_of_trail h
  have hzero : (load image input trace).steps = 0 := rfl
  have hexact := hcounted.exact_iff
  rw [Counted] at hcounted
  rw [hzero, Nat.zero_add] at hcounted hexact
  exact ⟨hcounted, hexact, fun hstep => hexact.2 fun a ha => overlooked_of_mem_triesOf hstep ha⟩

/-- A program that echoes a value waits in a run, is fed, takes the value in a single step, and is
run to its end: of the three instructions it completes, the counter misses the first. Fed before it
is run, it is counted in full. -/
theorem steps_of_trail_resumed_singly :
    ∃ handled, (load [3, 0, 4, 0, 99] [] false).trail 3 [.run, .feed [5], .step, .run] =
        some handled ∧
      ((load [3, 0, 4, 0, 99] [] false).triesOf 3 [.run, .feed [5], .step, .run]).map
          (fun a => (a.ip, a.completes, a.overlooked)) =
        [(0, false, false), (0, true, true), (2, true, false), (4, true, false)] ∧
      ((load [3, 0, 4, 0, 99] [] false).reached handled).steps + 1 = 3 ∧
      ∃ fed, (load [3, 0, 4, 0, 99] [] false).trail 3 [.feed [5], .run] = some fed ∧
        ((load [3, 0, 4, 0, 99] [] false).reached fed).steps = 3 :=
  ⟨_, rfl, rfl, (steps_of_trail [3, 0, 4, 0, 99] [] false 3 [.run, .feed [5], .step, .run] rfl).1,
    _, rfl, (steps_of_trail [3, 0, 4, 0, 99] [] false 3 [.feed [5], .run] rfl).2.2 (by decide)⟩

/-- Whether a machine waited before it was fed decides whether a single step is counted, though the
same instruction is completed. -/
theorem steps_differ_after_wait :
    ∃ waited fed, (load [3, 0, 99] [] false).trail 1 [.run, .feed [5], .step] = some waited ∧
      (load [3, 0, 99] [] false).trail 1 [.feed [5], .step] = some fed ∧
      (((load [3, 0, 99] [] false).triesOf 1 [.run, .feed [5], .step]).filter completes).map
          effect = [.ok (.accept 0)] ∧
      (((load [3, 0, 99] [] false).triesOf 1 [.feed [5], .step]).filter completes).map
          effect = [.ok (.accept 0)] ∧
      ((load [3, 0, 99] [] false).reached waited).steps = 0 ∧
      ((load [3, 0, 99] [] false).reached fed).steps = 1 :=
  ⟨_, _, rfl, rfl, rfl, rfl, rfl, rfl⟩

end CellMachine.Machine
