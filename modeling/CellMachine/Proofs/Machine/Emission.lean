import CellMachine.Proofs.Machine.Rest

/-!
# CellMachine.Proofs.Machine.Emission

**The values that a run emits.** An instruction consumes at most one value from the input and emits
at most one to the output, and an attempt moves no others (`Attempt.moves`). `Emits m values` lists,
attempt by attempt and without a look at any channel, what the running machine `m` emits until it
comes to rest. A run that nobody interrupts leaves exactly these values behind those that waited in
the output (`Ends.emits`).
-/

namespace CellMachine.Machine

variable {m next last : Machine} {outcome : Except Fault Status} {values : List Int}

/-- What the instruction at the instruction pointer consumes. -/
def consumes (m : Machine) : List Int :=
  match m.effect with
  | .ok (.accept _) => m.input.queue.take 1
  | _ => []

/-- What the instruction at the instruction pointer emits. -/
def emits (m : Machine) : List Int :=
  match m.effect with
  | .ok (.emit value) => [value]
  | _ => []

/-- An instruction takes what it consumes from the front of the input and puts what it emits at the
back of the output. -/
theorem Attempt.moves (h : Attempt m (.ok next)) :
    m.consumes ++ next.input.queue = m.input.queue ∧
      next.output.queue = m.output.queue ++ m.emits := by
  unfold consumes emits
  cases h with
  | blocked h hq => simp [h, hq]
  | accepted h hq => simp [h, hq]
  | emitted h => simp [h]
  | stopped h | stored h | went h | shifted h => simp [h]

/-- Until it comes to rest the running machine emits these values, in this order. -/
inductive Emits : Machine → List Int → Prop where
  /-- The attempt is the last one. -/
  | last {m : Machine} : (∀ next, m.step.outcome = .ok next → next.status ≠ .running) → Emits m []
  /-- An attempt completes and the machine goes on. -/
  | advance {m next : Machine} {values : List Int} : m.step.outcome = .ok next →
      next.status = .running → Emits next values → Emits m (m.emits ++ values)

theorem Emits.unique {values' : List Int} (h : Emits m values) (h' : Emits m values') :
    values = values' := by
  induction h generalizing values' with
  | last hlast =>
      cases h' with
      | last _ => rfl
      | advance hstep hrun _ => exact absurd hrun (hlast _ hstep)
  | advance hstep hrun _ ih =>
      cases h' with
      | last hlast => exact absurd hrun (hlast _ hstep)
      | advance hstep' _ hlater =>
          rw [hstep] at hstep'
          obtain rfl := Except.ok.inj hstep'
          rw [ih hlater]

/-- An attempt that leaves the machine stopped or waiting emits nothing. -/
theorem emits_of_rest (hrun : m.status = .running) (h : Attempt m (.ok next))
    (hrest : next.status ≠ .running) : m.emits = [] := by
  cases h with
  | blocked he _ => simp [emits, he]
  | stopped he => simp [emits, he]
  | _ => exact absurd hrun hrest

/-- What a run emits waits in the output behind what waited there before. -/
theorem Ends.emits (h : Ends m last outcome) (hrun : m.status = .running) :
    ∃ values, Emits m values ∧ last.output.queue = m.output.queue ++ values := by
  induction h with
  | fault hstep =>
      refine ⟨[], .last ?_, by simp⟩
      intro next hnext
      rw [hstep] at hnext
      cases hnext
  | @rest m next hstep hrest =>
      have hattempt : Attempt m (.ok next) := (attempt_iff (by rw [hrun]; decide)).2 hstep
      refine ⟨[], .last ?_, ?_⟩
      · intro next' hnext
        rw [hstep] at hnext
        obtain rfl := Except.ok.inj hnext
        exact hrest
      · rw [hattempt.moves.2, emits_of_rest hrun hattempt hrest]
  | @advance m next last _ hstep hnext _ ih =>
      have hattempt : Attempt m (.ok next) := (attempt_iff (by rw [hrun]; decide)).2 hstep
      obtain ⟨values, hvalues, hlast⟩ := ih hnext
      refine ⟨m.emits ++ values, .advance hstep hnext hvalues, ?_⟩
      rw [hlast, hattempt.moves.2, List.append_assoc]

/-- What a machine that was never run emits is what is in its output when it rests. -/
theorem RunsTo.emits (h : RunsTo m last outcome) (hm : m.Live) (hout : m.output.queue = []) :
    ∃ values, Emits m.awake values ∧ last.output.queue = values := by
  obtain ⟨values, hvalues, hlast⟩ := ((runsTo_iff_ends hm).1 h).emits rfl
  refine ⟨values, hvalues, ?_⟩
  have hawake : m.awake.output.queue = [] := hout
  rw [hlast, hawake, List.nil_append]

end CellMachine.Machine
