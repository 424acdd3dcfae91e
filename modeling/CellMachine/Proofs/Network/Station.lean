import CellMachine.Proofs.Machine.Emission

/-!
# CellMachine.Proofs.Network.Station

**One machine of a network.** A station is a machine with an account of every value its
instructions have consumed and of every value they have emitted, whether or not it was taken from
the output since. The account is kept instruction by instruction (`Station.execute?`), so it does
not depend on how the machine is run.

What a station does commutes with what its neighbours do to it: more input at the back and less
output at the front change none of its instructions (`execute?_receive`, `execute?_ship`).
-/

namespace CellMachine

namespace Machine

variable {m : Machine}

/-! ### What an instruction moves -/

theorem emits_flank (before after : List Int) : (m.flank before after).emits = m.emits := by
  rw [emits, emits, effect_flank]

theorem consumes_flank (h : ¬m.Blocked) (before after : List Int) :
    (m.flank before after).consumes = m.consumes := by
  unfold consumes
  rw [effect_flank, queue_input_flank]
  split
  · rename_i address he
    have hq : m.input.queue ≠ [] := fun hq => h ⟨hq, address, he⟩
    obtain ⟨value, rest, hq⟩ := List.exists_cons_of_ne_nil hq
    rw [hq]
    rfl
  · rfl

/-! ### Machines that differ in how they wait -/

instance : DecidablePred Live := fun _ => inferInstanceAs (Decidable (_ ∧ _))

/-- The machine as an attempt finds it: whether it was never run or waits makes no difference. -/
def roused (m : Machine) : Machine := if m.Live then m.awake else m

theorem roused_of_live (h : m.Live) : m.roused = m.awake := if_pos h

theorem roused_of_not_live (h : ¬m.Live) : m.roused = m := if_neg h

theorem awake_awake : m.awake.awake = m.awake := rfl

theorem awake_of_running (h : m.status = .running) : m.awake = m := by
  rw [awake, ← h]

theorem roused_of_running (h : m.status = .running) : m.roused = m := by
  rw [roused_of_live ⟨by simp [h], by simp [h]⟩, awake_of_running h]

theorem live_awake : m.awake.Live := ⟨by simp, by simp⟩

theorem roused_roused : m.roused.roused = m.roused := by
  by_cases h : m.Live
  · rw [roused_of_live h, roused_of_live live_awake, awake_awake]
  · rw [roused_of_not_live h, roused_of_not_live h]

theorem halted_roused : m.roused.status = .halted ↔ m.status = .halted := by
  unfold roused
  split
  · rename_i h
    simp [h.1]
  · exact Iff.rfl

@[simp] theorem input_roused : m.roused.input = m.input := by
  unfold roused
  split <;> rfl

@[simp] theorem output_roused : m.roused.output = m.output := by
  unfold roused
  split <;> rfl

end Machine

namespace Network

/-! ### Stations -/

/-- A machine and an account of what its instructions have moved. -/
structure Station where
  /-- The machine. -/
  machine : Machine
  /-- Every value it ever consumed, in order. -/
  consumed : List Int := []
  /-- Every value it ever emitted, in order. -/
  emitted : List Int := []

namespace Station

open Machine

variable {s s' : Station}

/-- The station after its instruction has led to this machine. -/
def book (s : Station) (next : Machine) : Station where
  machine := next
  consumed := s.consumed ++ s.machine.consumes
  emitted := s.emitted ++ s.machine.emits

/-- Executes one instruction, unless the machine has stopped, has faulted or finds nothing to
read. -/
def execute? (s : Station) : Option Station :=
  if s.machine.Live then
    match s.machine.awake.step.outcome with
    | .error _ => some { s with machine := { s.machine with status := .faulted } }
    | .ok next => if next.status = .suspended then none else some (s.book next)
  else none

/-- The station with more to read. -/
def receive (s : Station) (values : List Int) : Station :=
  { s with machine := s.machine.feed values }

/-- The station without the front of its output. -/
def ship (s : Station) : Station :=
  { s with machine := { s.machine with output := ⟨s.machine.output.queue.tail⟩ } }

/-- The station with more to read and more that was not taken. -/
def flank (s : Station) (before after : List Int) : Station :=
  { s with machine := s.machine.flank before after }

/-- The station with its machine roused. -/
def roused (s : Station) : Station := { s with machine := s.machine.roused }

/-- All that ever reached the station: what it has consumed, and what waits. -/
def intake (s : Station) : List Int := s.consumed ++ s.machine.input.queue

@[simp] theorem intake_receive (values : List Int) :
    (s.receive values).intake = s.intake ++ values := by
  simp [intake, receive, feed, Channel.extend]

@[simp] theorem intake_ship : s.ship.intake = s.intake := rfl
@[simp] theorem emitted_receive (values : List Int) : (s.receive values).emitted = s.emitted := rfl
@[simp] theorem emitted_ship : s.ship.emitted = s.emitted := rfl
@[simp] theorem output_receive (values : List Int) :
    (s.receive values).machine.output = s.machine.output := rfl
@[simp] theorem output_ship : s.ship.machine.output.queue = s.machine.output.queue.tail := rfl

@[simp] theorem emitted_roused : s.roused.emitted = s.emitted := rfl
@[simp] theorem intake_roused : s.roused.intake = s.intake := by simp [intake, roused]
@[simp] theorem output_roused : s.roused.machine.output = s.machine.output := Machine.output_roused
@[simp] theorem emitted_flank (before : List Int) : (s.flank before []).emitted = s.emitted := rfl

theorem receive_nil : s.receive [] = s := by simp [receive]

theorem receive_receive (xs ys : List Int) :
    (s.receive xs).receive ys = s.receive (xs ++ ys) := by
  simp [receive, feed_feed]

/-- Taking the front of an output and putting it back changes nothing. -/
theorem flank_ship {value : Int} {rest : List Int} (h : s.machine.output.queue = value :: rest) :
    s.ship.flank [value] [] = s := by
  have houtput : s.machine.output = ⟨value :: rest⟩ := by rw [← h]
  simp only [ship, flank, Machine.flank, Channel.extend, List.append_nil, h, List.tail_cons,
    List.singleton_append, ← houtput]

theorem ship_flank (value : Int) (rest : List Int) :
    (s.flank (value :: rest) []).ship = s.flank rest [] := rfl

theorem flank_nil : s.flank [] [] = s := by
  simp [flank, Machine.flank, Channel.extend]

theorem receive_flank (before values : List Int) :
    (s.flank before []).receive values = (s.receive values).flank before [] := by
  simp [flank, receive, Machine.flank, feed, Channel.extend]

@[simp] theorem intake_flank (before : List Int) : (s.flank before []).intake = s.intake := by
  simp [intake, flank]

/-! ### One instruction -/

/-- What one instruction of a live station can do: fault, or lead on without waiting. -/
theorem execute?_cases (h : s.execute? = some s') :
    s.machine.Live ∧ ¬s.machine.awake.Blocked ∧
      ((∃ fault, s.machine.awake.step.outcome = .error fault ∧
          s' = { s with machine := { s.machine with status := .faulted } }) ∨
        ∃ next, Attempt s.machine.awake (.ok next) ∧
          (next.status = .running ∨ next.status = .halted) ∧ s' = s.book next) := by
  unfold execute? at h
  split at h
  case isFalse => cases h
  rename_i hlive
  have hatt := attempt_step (m := s.machine.awake) (by simp)
  refine ⟨hlive, ?_, ?_⟩
  · rintro ⟨hq, address, he⟩
    rw [hatt.unique (.blocked he hq)] at h
    simp at h
  · split at h
    · rename_i fault ho
      exact .inl ⟨fault, ho, (Option.some.inj h).symm⟩
    · rename_i next ho
      split at h
      · cases h
      · rename_i hne
        rw [ho] at hatt
        refine .inr ⟨next, hatt, ?_, (Option.some.inj h).symm⟩
        cases hatt with
        | blocked => exact absurd rfl hne
        | stopped => exact .inr rfl
        | _ => exact .inl rfl

theorem execute?_of_not_live (h : ¬s.machine.Live) : s.execute? = none := if_neg h

/-- A station has nothing to execute exactly when it has stopped, has faulted or waits. -/
theorem execute?_eq_none :
    s.execute? = none ↔ (s.machine.Live → s.machine.awake.Blocked) := by
  constructor
  · intro h hlive
    have hatt := attempt_step (m := s.machine.awake) (by simp)
    unfold execute? at h
    rw [if_pos hlive] at h
    split at h
    · cases h
    · rename_i next ho
      rw [ho] at hatt
      split at h
      · rename_i hs
        cases hatt with
        | blocked he hq => exact ⟨hq, _, he⟩
        | _ => cases hs
      · cases h
  · intro h
    cases hs : s.execute? with
    | none => rfl
    | some s' =>
        obtain ⟨hlive, hblock, -⟩ := execute?_cases hs
        exact absurd (h hlive) hblock

/-- An instruction does not see what waits behind the input and before the output. -/
theorem execute?_flank (h : s.execute? = some s') (before after : List Int) :
    (s.flank before after).execute? = some (s'.flank before after) := by
  obtain ⟨hlive, hblock, h⟩ := execute?_cases h
  have hstep : (s.machine.awake.flank before after).step.outcome =
      s.machine.awake.step.outcome.map fun next => next.flank before after :=
    (step_flank rfl before after).resolve_left fun h => hblock h.1
  -- the status and what `Live` asks of it are the same with and without the additions
  have hflank : (s.flank before after).execute? =
      match (s.machine.awake.flank before after).step.outcome with
      | .error _ =>
        some { s with machine := { s.machine.flank before after with status := .faulted } }
      | .ok next =>
        if next.status = .suspended then none else some ((s.flank before after).book next) :=
    if_pos hlive
  rcases h with ⟨fault, ho, rfl⟩ | ⟨next, hatt, hstatus, rfl⟩
  · rw [hflank, hstep, ho]
    rfl
  · have hne : next.status ≠ .suspended := by
      rcases hstatus with h | h <;> rw [h] <;> decide
    have hbook : (s.flank before after).book (next.flank before after) =
        (s.book next).flank before after := by
      simp only [book, flank, emits_flank, consumes_flank (m := s.machine) hblock]
    rw [hflank, hstep, (attempt_iff (by simp)).1 hatt]
    exact (if_neg hne).trans (congrArg some hbook)

theorem execute?_receive (h : s.execute? = some s') (values : List Int) :
    (s.receive values).execute? = some (s'.receive values) :=
  execute?_flank h [] values

/-- Taking the front of the output commutes with an instruction. -/
theorem execute?_ship (h : s.execute? = some s') (hne : s.machine.output.queue ≠ []) :
    s.ship.execute? = some s'.ship := by
  obtain ⟨value, rest, hq⟩ := List.exists_cons_of_ne_nil hne
  cases hship : s.ship.execute? with
  | none =>
      -- the station without that value would be blocked, and so would the station itself
      have hblock := execute?_eq_none.1 hship (execute?_cases h).1
      exact absurd ((blocked_flank_nil [value]).2 hblock) (by
        rw [show s.ship.machine.awake.flank [value] [] = s.machine.awake from
          congrArg (fun s => s.machine.awake) (flank_ship hq)]
        exact (execute?_cases h).2.1)
  | some next =>
      have hflank := execute?_flank hship [value] []
      rw [flank_ship hq, h, Option.some.injEq] at hflank
      rw [hflank, ship_flank, flank_nil]

/-- An instruction keeps what ever reached the station, and what it emits is left in the output. -/
theorem execute?_moves (h : s.execute? = some s') :
    s'.intake = s.intake ∧ ∃ values, s'.emitted = s.emitted ++ values ∧
      s'.machine.output.queue = s.machine.output.queue ++ values := by
  obtain ⟨-, -, ⟨fault, -, rfl⟩ | ⟨next, hatt, -, rfl⟩⟩ := execute?_cases h
  · exact ⟨rfl, [], by simp, by simp⟩
  · obtain ⟨hin, hout⟩ := hatt.moves
    refine ⟨?_, s.machine.emits, rfl, hout⟩
    have hin : s.machine.consumes ++ next.input.queue = s.machine.input.queue := hin
    simp only [intake, book, List.append_assoc, hin]

/-- Executing an instruction settles what the machine is up to. -/
theorem roused_of_execute? (h : s.execute? = some s') : s'.roused = s' := by
  unfold roused
  obtain ⟨-, -, ⟨fault, -, rfl⟩ | ⟨next, -, hrun | hhalt, rfl⟩⟩ := execute?_cases h
  · rw [roused_of_not_live (by simp [Live])]
  · rw [book, roused_of_running hrun]
  · rw [book, roused_of_not_live (by simp [Live, hhalt])]

theorem execute?_roused : s.roused.execute? = s.execute? := by
  by_cases h : s.machine.Live
  · rw [roused, roused_of_live h]
    simp only [execute?, h, live_awake, awake_awake]
    rfl
  · rw [roused, roused_of_not_live h]

theorem roused_receive (values : List Int) :
    (s.receive values).roused = s.roused.receive values := by
  unfold roused receive Machine.roused
  split <;> rename_i h
  · rw [if_pos (show s.machine.Live from h)]; rfl
  · rw [if_neg (show ¬s.machine.Live from h)]

theorem roused_ship : s.ship.roused = s.roused.ship := by
  unfold roused ship Machine.roused
  split <;> rename_i h
  · rw [if_pos (show s.machine.Live from h)]; rfl
  · rw [if_neg (show ¬s.machine.Live from h)]

/-! ### A whole run -/

/-- Executes up to so many instructions, as many as there are. -/
def work : Nat → Station → Station
  | 0, s => s
  | fuel + 1, s =>
    match s.execute? with
    | none => s
    | some next => work fuel next

theorem work_of_none (h : s.execute? = none) (fuel : Nat) : s.work fuel = s := by
  cases fuel with
  | zero => rfl
  | succ fuel => simp only [work, h]

theorem work_of_some (h : s.execute? = some s') (fuel : Nat) :
    s.work (fuel + 1) = s'.work fuel := by
  simp only [work, h]

theorem work_moves (s : Station) (fuel : Nat) :
    (s.work fuel).intake = s.intake ∧ ∃ values, (s.work fuel).emitted = s.emitted ++ values ∧
      (s.work fuel).machine.output.queue = s.machine.output.queue ++ values := by
  induction fuel generalizing s with
  | zero => exact ⟨rfl, [], by simp [work], by simp [work]⟩
  | succ fuel ih =>
      cases h : s.execute? with
      | none =>
          rw [work_of_none h]
          exact ⟨rfl, [], by simp, by simp⟩
      | some next =>
          obtain ⟨hintake, values, hemitted, hout⟩ := execute?_moves h
          obtain ⟨hintake', values', hemitted', hout'⟩ := ih next
          rw [work_of_some h]
          refine ⟨hintake'.trans hintake, values ++ values', ?_, ?_⟩
          · rw [hemitted', hemitted, List.append_assoc]
          · rw [hout', hout, List.append_assoc]

theorem roused_work (fuel : Nat) : (s.work fuel).roused = s.roused.work fuel := by
  induction fuel generalizing s with
  | zero => rfl
  | succ fuel ih =>
      cases h : s.execute? with
      | none => rw [work_of_none h, work_of_none (execute?_roused.trans h)]
      | some next =>
          rw [work_of_some h, work_of_some (execute?_roused.trans h), ih, roused_of_execute? h]

theorem work_of_proceed {fuel : Nat} {log : Array Event} {r : Run}
    (h : proceed fuel s.machine log = some r) (hrun : s.machine.status = .running) :
    (s.work fuel).machine.roused = r.machine.roused := by
  -- the loop of a run and `work` attempt the same instructions; they part only where the machine
  -- waits, which a run records in the status and `work` does not
  induction fuel generalizing s log with
  | zero => cases h
  | succ fuel ih =>
      have hlive : s.machine.Live := ⟨by simp [hrun], by simp [hrun]⟩
      have hexec : s.execute? =
          match s.machine.step.outcome with
          | .error _ => some { s with machine := { s.machine with status := .faulted } }
          | .ok next => if next.status = .suspended then none else some (s.book next) := by
        rw [execute?, if_pos hlive, awake_of_running hrun]
      cases hstep : s.machine.step.outcome with
      | error fault =>
          rw [proceed_of_error hstep, Option.some.injEq] at h
          rw [hstep] at hexec
          rw [work_of_some hexec, work_of_none (execute?_of_not_live fun h => h.2 rfl), ← h]
      | ok next =>
          rw [proceed_of_ok hstep] at h
          rw [hstep] at hexec
          by_cases hnext : next.status = .running
          · rw [if_pos hnext] at h
            rw [work_of_some (hexec.trans (if_neg (by simp [hnext])))]
            exact ih (s := s.book next) h hnext
          · rw [if_neg hnext, Option.some.injEq] at h
            cases (attempt_iff (by simp [hrun])).2 hstep with
            | blocked he hq =>
                rw [work_of_none hexec, ← h, roused_of_running hrun,
                  roused_of_live ⟨by simp, by simp⟩]
                exact (awake_of_running hrun).symm
            | stopped he =>
                rw [work_of_some hexec, work_of_none (execute?_of_not_live fun h => h.1 rfl), ← h]
                rfl
            | _ => exact absurd hrun hnext

/-- Executing instruction after instruction leads to the machine that a run leads to. -/
theorem work_of_run {fuel : Nat} {r : Run} (h : s.machine.run fuel = some r) :
    (s.work fuel).machine.roused = r.machine.roused := by
  by_cases hlive : s.machine.Live
  · rw [run_of_live hlive] at h
    have hroused : s.roused.machine = s.machine.awake := roused_of_live hlive
    have hwork := work_of_proceed (s := s.roused) (hroused ▸ h) (hroused ▸ rfl)
    rwa [← roused_work, roused, roused_roused] at hwork
  · have hrest : r.machine = s.machine := by
      by_cases hhalt : s.machine.status = .halted
      · rw [run_of_halted hhalt, Option.some.injEq] at h
        rw [← h]
      · have hfault : s.machine.status = .faulted :=
          Decidable.byContradiction fun hne => hlive ⟨hhalt, hne⟩
        rw [run_of_faulted hfault, Option.some.injEq] at h
        rw [← h]
    rw [work_of_none (execute?_of_not_live hlive), hrest]

end Station

end Network

end CellMachine
