import CellMachine.Proofs.Machine.Session

/-!
# CellMachine.Proofs.Machine.Chunking

**Input may come in portions.** A machine given its input in portions, run and drained in between at
will, ends as the machine that had all of it from the beginning. What carries the proof is
`RunsTo.cut`: a machine that runs before the rest of its input is there either ends as it would
have with that input, or it waits, and then going on with the input ends the same.
-/

namespace CellMachine.Machine

variable {m last : Machine} {outcome : Except Fault Status} {before after : List Int}

/-! ### One run, cut where the input runs out -/

theorem step_of_flank_error {fault : Fault} (hrun : m.status = .running)
    (h : (m.flank before after).step.outcome = .error fault) :
    m.Blocked ∨ m.step.outcome = .error fault := by
  rcases step_flank hrun before after with ⟨hblock, -⟩ | hflank
  · exact .inl hblock
  · rw [h] at hflank
    cases ho : m.step.outcome with
    | error fault' =>
        rw [ho] at hflank
        exact .inr hflank.symm
    | ok next => rw [ho] at hflank; cases hflank

theorem step_of_flank_ok {next : Machine} (hrun : m.status = .running)
    (h : (m.flank before after).step.outcome = .ok next) :
    m.Blocked ∨ ∃ next', m.step.outcome = .ok next' ∧ next = next'.flank before after := by
  rcases step_flank hrun before after with ⟨hblock, -⟩ | hflank
  · exact .inl hblock
  · rw [h] at hflank
    cases ho : m.step.outcome with
    | error fault => rw [ho] at hflank; cases hflank
    | ok next' =>
        rw [ho] at hflank
        exact .inr ⟨next', rfl, Except.ok.inj hflank⟩

/-- What remains of a run when the machine has only a part of its input: the machine rests as it
would have with all of it, or it waits and the run lies ahead. -/
def Cut (m last : Machine) (outcome : Except Fault Status) (before after : List Int) : Prop :=
  ∃ last' outcome', Ends m last' outcome' ∧
    ((last = last'.flank before after ∧ outcome = outcome') ∨
      (after ≠ [] ∧ outcome' = .ok .suspended ∧ last'.status = .suspended ∧
        Ends (last'.flank before after).awake last outcome))

/-- A blocked machine has the whole run ahead, unless no input will come. -/
theorem Blocked.cut (h : m.Blocked) (hrun : m.status = .running)
    (hends : Ends (m.flank before after) last outcome) : Cut m last outcome before after := by
  have hm : ∀ {m : Machine}, m.status = .running → m.status ≠ .suspended := by
    intro m h
    rw [h]; decide
  refine ⟨_, _, h.ends (hm hrun), ?_⟩
  by_cases hafter : after = []
  · subst hafter
    exact .inl (hends.unique (((blocked_flank_nil before).2 h).ends (hm hrun)))
  · have hawake : (m.flank before after).awake = m.flank before after := by
      rw [awake, ← hrun]; rfl
    exact .inr ⟨hafter, rfl, rfl, hawake ▸ hends⟩

/-- A run of the machine with all its input, seen from the machine with a part of it. -/
theorem Ends.cut (h : Ends (m.flank before after) last outcome) (hrun : m.status = .running) :
    Cut m last outcome before after := by
  -- the induction is on the run of the machine with all its input; the machine with a part of it
  -- keeps pace until it blocks, and then the rest of that run lies ahead
  generalize hM : m.flank before after = M at h
  induction h generalizing m with
  | fault hstep =>
      subst hM
      rcases step_of_flank_error hrun hstep with hblock | ho
      · exact hblock.cut hrun (.fault hstep)
      · exact ⟨_, _, .fault ho, .inl ⟨rfl, rfl⟩⟩
  | rest hstep hrest =>
      subst hM
      rcases step_of_flank_ok hrun hstep with hblock | ⟨next', ho, rfl⟩
      · exact hblock.cut hrun (.rest hstep hrest)
      · exact ⟨_, _, .rest ho hrest, .inl ⟨rfl, rfl⟩⟩
  | advance hstep hnext hends ih =>
      subst hM
      rcases step_of_flank_ok hrun hstep with hblock | ⟨next', ho, rfl⟩
      · exact hblock.cut hrun (.advance hstep hnext hends)
      · obtain ⟨last', outcome', hends', hcut⟩ := ih (m := next') hnext rfl
        exact ⟨last', outcome', .advance ho hnext hends', hcut⟩

/-- The same for whole runs. -/
theorem RunsTo.cut (h : RunsTo (m.flank before after) last outcome) :
    ∃ last' outcome', RunsTo m last' outcome' ∧
      ((last = last'.flank before after ∧ outcome = outcome') ∨
        (after ≠ [] ∧ outcome' = .ok .suspended ∧ last'.status = .suspended ∧
          RunsTo (last'.flank before after) last outcome)) := by
  by_cases hhalt : m.status = .halted
  · exact ⟨_, _, runsTo_of_halted hhalt,
      .inl (h.unique (runsTo_of_halted (m := m.flank before after) hhalt))⟩
  by_cases hfault : m.status = .faulted
  · exact ⟨_, _, runsTo_of_faulted hfault,
      .inl (h.unique (runsTo_of_faulted (m := m.flank before after) hfault))⟩
  obtain ⟨last', outcome', hends, hcut⟩ :=
    Ends.cut (m := m.awake)
      ((runsTo_iff_ends (m := m.flank before after) ⟨hhalt, hfault⟩).1 h) rfl
  refine ⟨last', outcome', (runsTo_iff_ends ⟨hhalt, hfault⟩).2 hends, ?_⟩
  rcases hcut with hcut | ⟨hafter, hout, hlast, hrest⟩
  · exact .inl hcut
  · have hlive : (last'.flank before after).Live := by
      constructor <;> simp [hlast]
    exact .inr ⟨hafter, hout, hlast, (runsTo_iff_ends hlive).2 hrest⟩

/-! ### Sessions -/

/-- Where a session stands, compared with a machine that had all the input fed in it: it has that
machine's run ahead, or it has met the fault that the machine meets. -/
inductive Abreast (m : Machine) (answers : List Answer) (ahead : List Int) (whole : Machine)
    (outcome : Except Fault Status) : Prop where
  /-- No run faulted yet, and the run of the other machine lies ahead. -/
  | level : m.status ≠ .faulted → (∀ o ∈ outcomes answers, ∃ status, o = .ok status) →
      RunsTo (m.flank (drained answers) ahead) whole outcome → Abreast m answers ahead whole outcome
  /-- One run met the fault, and all runs after it were refused. -/
  | ended {fault : Fault} {earlier later : List (Except Fault Status)} : outcome = .error fault →
      outcomes answers = earlier ++ .error fault :: later →
      (∀ o ∈ earlier, ∃ status, o = .ok status) → (∀ o ∈ later, o = .error m.refusal) →
      m.status = .faulted → m.flank (drained answers) ahead = whole →
      Abreast m answers ahead whole outcome

variable {answers : List Answer} {ahead : List Int} {whole : Machine}

theorem Abreast.feed {values : List Int}
    (h : Abreast m answers (values ++ ahead) whole outcome) :
    Abreast (m.feed values) (answers ++ [.fed]) ahead whole outcome := by
  have hflank : (m.feed values).flank (drained (answers ++ [.fed])) ahead =
      m.flank (drained answers) (values ++ ahead) := by
    rw [drained_concat]
    simp [flank, Machine.feed, Channel.extend, Answer.values]
  cases h with
  | level hm hok hrun =>
      refine .level hm ?_ (hflank ▸ hrun)
      rwa [outcomes_concat, Answer.outcome?, Option.toList_none, List.append_nil]
  | ended ho houts hok hlater hm hwhole =>
      refine .ended ho ?_ hok hlater hm (hflank.trans hwhole)
      rwa [outcomes_concat, Answer.outcome?, Option.toList_none, List.append_nil]

theorem Abreast.drain (h : Abreast m answers ahead whole outcome) :
    Abreast m.drain.2 (answers ++ [.drained m.output.queue]) ahead whole outcome := by
  have hflank : m.drain.2.flank (drained (answers ++ [.drained m.output.queue])) ahead =
      m.flank (drained answers) ahead := by
    rw [drained_concat]
    simp [flank, Answer.values]
  cases h with
  | level hm hok hrun =>
      refine .level hm ?_ (hflank ▸ hrun)
      rwa [outcomes_concat, Answer.outcome?, Option.toList_none, List.append_nil]
  | ended ho houts hok hlater hm hwhole =>
      refine .ended ho ?_ hok hlater hm (hflank.trans hwhole)
      rwa [outcomes_concat, Answer.outcome?, Option.toList_none, List.append_nil]

/-- A run keeps the session abreast, and with no input left to come it catches up. -/
theorem Abreast.run (h : Abreast m answers ahead whole outcome) :
    ∃ next outcome', RunsTo m next outcome' ∧
      Abreast next (answers ++ [.ran outcome']) ahead whole outcome ∧
      (ahead = [] → next.flank (drained answers) [] = whole) := by
  have hdrained : ∀ o, drained (answers ++ [.ran o]) = drained answers := by
    intro o
    rw [drained_concat, Answer.values, List.append_nil]
  have houtcomes : ∀ o, outcomes (answers ++ [.ran o]) = outcomes answers ++ [o] := by
    intro o
    rw [outcomes_concat, Answer.outcome?, Option.toList_some]
  cases h with
  | level hm hok hrun =>
      obtain ⟨next, outcome', hnext, hcut⟩ := hrun.cut
      have hok' : ∀ {status}, outcome' = .ok status →
          ∀ o ∈ outcomes (answers ++ [.ran outcome']), ∃ status, o = .ok status := by
        intro status hstatus o ho
        rw [houtcomes, List.mem_append, List.mem_singleton] at ho
        rcases ho with ho | rfl
        · exact hok o ho
        · exact ⟨status, hstatus⟩
      refine ⟨next, outcome', hnext, ?_, ?_⟩
      · rcases hcut with ⟨rfl, rfl⟩ | ⟨-, rfl, hlast, hrest⟩
        -- the run ended as the other one: what lies ahead of a machine at rest is its rest again
        · rcases hnext.status hm with ⟨rfl, hs⟩ | ⟨rfl, hs⟩ | ⟨fault, rfl, hs, -⟩
          · exact .level (by rw [hs]; decide) (hok' rfl) (by rw [hdrained]; exact hrun.again)
          · exact .level (by rw [hs]; decide) (hok' rfl) (by rw [hdrained]; exact hrun.again)
          · exact .ended rfl (houtcomes _) hok (by simp) hs (by rw [hdrained])
        · exact .level (by rw [hlast]; decide) (hok' rfl) (by rw [hdrained]; exact hrest)
      · rintro rfl
        rcases hcut with ⟨rfl, -⟩ | ⟨hne, -⟩
        · rfl
        · exact absurd rfl hne
  | @ended fault earlier later ho houts hok hlater hm hwhole =>
      have houts' : outcomes (answers ++ [.ran (.error m.refusal)]) =
          earlier ++ .error fault :: (later ++ [.error m.refusal]) := by
        rw [houtcomes, houts, List.append_assoc, List.cons_append]
      have hlater' : ∀ o ∈ later ++ [.error m.refusal], o = .error m.refusal := by
        intro o ho
        rw [List.mem_append, List.mem_singleton] at ho
        rcases ho with ho | rfl
        · exact hlater o ho
        · rfl
      have hwhole' : m.flank (drained (answers ++ [.ran (.error m.refusal)])) ahead = whole := by
        rw [hdrained, hwhole]
      exact ⟨m, _, runsTo_of_faulted hm, .ended ho houts' hok hlater' hm hwhole',
        fun hnil => hnil ▸ hwhole⟩

/-- A session stays abreast from beginning to end. -/
theorem Abreast.serves {session : List Request}
    (h : Abreast m answers (fed session) whole outcome) :
    ∃ answers' last, Serves m session answers' last ∧
      Abreast last (answers ++ answers') [] whole outcome := by
  induction session generalizing m answers with
  | nil => exact ⟨[], m, .nil, by simpa using h⟩
  | cons q session ih =>
      cases q with
      | feed values =>
          obtain ⟨answers', last, hserves, hlast⟩ := ih h.feed
          exact ⟨_, last, hserves.feed, by simpa using hlast⟩
      | drain =>
          obtain ⟨answers', last, hserves, hlast⟩ := ih h.drain
          exact ⟨_, last, hserves.drain, by simpa using hlast⟩
      | run =>
          obtain ⟨next, outcome', hrun, hnext, -⟩ := h.run
          obtain ⟨answers', last, hserves, hlast⟩ := ih hnext
          exact ⟨_, last, hserves.run hrun, by simpa using hlast⟩

/-- **Input may come in portions.** Cut the input of a machine into portions, the first given when
it is loaded and the others fed in a session that runs and drains the machine at will and runs it
once more at the end. If the machine that had all the input comes to rest, so does every run of the
session; its machine ends with the same memory, registers, step count, status and remaining input;
what was drained, followed by what was not, is the same output; and a fault is raised by one run,
all later runs being refused. -/
theorem portions_unobservable (image portion input : List Int) (session : List Request)
    (trace : Bool) (fuel : Nat) (whole : Run) (hcut : portion ++ fed session = input)
    (hwhole : (load image input trace).run fuel = some whole) :
    ∃ answers m, Serves (load image portion trace) (session ++ [.run]) answers m ∧
      m.memory = whole.machine.memory ∧ m.ip = whole.machine.ip ∧
      m.base = whole.machine.base ∧ m.steps = whole.machine.steps ∧
      m.status = whole.machine.status ∧ m.input = whole.machine.input ∧
      drained answers ++ m.output.queue = whole.machine.output.queue ∧
      ∀ fault, whole.outcome = .error fault →
        ∃ earlier later, outcomes answers = earlier ++ .error fault :: later ∧
          (∀ o ∈ earlier, ∃ status, o = .ok status) ∧
          (∀ o ∈ later, o = .error m.refusal) ∧ fault ≠ m.refusal := by
  have hrun := RunsTo.of_run hwhole
  have hstart : (load image portion trace).flank (drained []) (fed session) =
      load image input trace := by
    rw [← hcut]
    rfl
  have hlevel : Abreast (load image portion trace) [] (fed session) whole.machine whole.outcome :=
    .level (by simp [load]) (by simp [outcomes]) (hstart ▸ hrun)
  obtain ⟨answers, m', hserves, hm'⟩ := hlevel.serves
  obtain ⟨m, outcome', hlast, hm, hcaught⟩ := hm'.run
  have hflank := hcaught rfl
  rw [List.nil_append] at hm hflank
  refine ⟨answers ++ [.ran outcome'], m, hserves.append (.run hlast .nil), ?_, ?_, ?_, ?_, ?_, ?_,
    ?_, ?_⟩
  · rw [← hflank]; rfl
  · rw [← hflank]; rfl
  · rw [← hflank]; rfl
  · rw [← hflank]; rfl
  · rw [← hflank]; rfl
  · rw [← hflank]
    simp [flank, Channel.extend]
  · rw [← hflank, drained_concat, Answer.values, List.append_nil, queue_output_flank]
  · intro fault hfault
    rw [hfault] at hrun hm
    -- the fault is no refusal, so the run that raised it can be told from those refused later
    have hnew : whole.machine.status = .faulted ∧ fault.cause ≠ .resumedAfterFault := by
      rcases hrun.status (by simp [load]) with ⟨h, -⟩ | ⟨h, -⟩ | ⟨fault', h, hstatus, -, hcause⟩
      · cases h
      · cases h
      · obtain rfl := Except.error.inj h
        exact ⟨hstatus, hcause⟩
    have hne : fault ≠ m.refusal := by
      rintro rfl
      exact hnew.2 rfl
    cases hm with
    | level hm _ _ => exact absurd (by rw [← hnew.1, ← hflank]; rfl) hm
    | @ended fault' earlier later ho houts hok hlater _ _ =>
        obtain rfl := Except.error.inj ho
        exact ⟨earlier, later, houts, hok, hlater, hne⟩

/-- A program that copies two values and then meets a word that no operation has: run on the first
value alone, drained, fed nothing and run again, then fed the second value and run twice. -/
theorem portions_unobservable_two_copies :
    ∃ whole, (load [3, 0, 4, 0, 3, 0, 4, 0, 98] [7, 8] false).run 5 = some whole ∧
      whole.outcome = .error ⟨.unknownOpcode 98, some 8, some 98⟩ ∧
      ∃ answers m,
        Serves (load [3, 0, 4, 0, 3, 0, 4, 0, 98] [7] false)
          ([.run, .drain, .feed [], .run, .feed [8], .run] ++ [.run]) answers m ∧
        m.status = whole.machine.status ∧
        drained answers ++ m.output.queue = whole.machine.output.queue ∧
        ∃ earlier later,
          outcomes answers = earlier ++ .error ⟨.unknownOpcode 98, some 8, some 98⟩ :: later ∧
          (∀ o ∈ earlier, ∃ status, o = .ok status) ∧ ∀ o ∈ later, o = .error m.refusal := by
  obtain ⟨whole, hwhole⟩ := Option.isSome_iff_exists.1
    (show ((load [3, 0, 4, 0, 3, 0, 4, 0, 98] [7, 8] false).run 5).isSome = true from rfl)
  have hfault : whole.outcome = .error ⟨.unknownOpcode 98, some 8, some 98⟩ := by
    have hmap := congrArg (Option.map Run.outcome) hwhole
    exact (Option.some.inj hmap).symm
  obtain ⟨answers, m, hserves, -, -, -, -, hstatus, -, hout, hraised⟩ :=
    portions_unobservable _ [7] _ [.run, .drain, .feed [], .run, .feed [8], .run] false 5 whole
      rfl hwhole
  obtain ⟨earlier, later, houts, hok, hlater, -⟩ := hraised _ hfault
  exact ⟨whole, hwhole, hfault, answers, m, hserves, hstatus, hout, earlier, later, houts, hok,
    hlater⟩

end CellMachine.Machine
