import CellMachine.Command.Amplify
import CellMachine.Command.Run
import CellMachine.Proofs.Image.Loading
import CellMachine.Proofs.Machine.Refusal

/-!
# CellMachine.Proofs.Command.Ending

**How the commands end, by what their work comes to.** The work of a command is a sequence of steps
that may fail, and the ending follows from where it stops: one lemma for each step that stops it,
and one for each ending. What a command logs is left out here (`Result.Exits`), but to end with an
exit code it has to write all of it. The command that runs a program notes nothing that is not
written (`RunOptions.notes_of_execute`); of the other this is assumed.
-/

namespace CellMachine.Command

variable {limits : Limits} {limit : DigitLimit} {fuel code code' : Nat}
variable {content : Except ReadError ByteArray} {image patched : Image} {cells : Cells}
variable {reason : LoadError} {fault : Fault} {result : Result} {stdout stdout' : String}

/-! ### Exit codes -/

/-- The command ended with this exit code, having printed this. -/
inductive Result.Exits : Result → Nat → String → Prop where
  /-- It ended in one of its own ways. -/
  | finished (code : Nat) (stdout : String) (log : List LogLine) :
      Exits (.finished code stdout log) code stdout
  /-- It was given words that make no sense. -/
  | usageError : Exits .usageError usageCode ""

theorem Result.Exits.unique (h : result.Exits code stdout) (h' : result.Exits code' stdout') :
    code = code' ∧ stdout = stdout' := by
  cases h with
  | finished _ _ _ =>
      cases h'
      exact ⟨rfl, rfl⟩
  | usageError =>
      cases h'
      exact ⟨rfl, rfl⟩

theorem Result.not_exits_aborted (reason : Abort) (stdout : String) (log : List LogLine)
    (code : Nat) (stdout' : String) : ¬(Result.aborted reason stdout log).Exits code stdout' := by
  intro h
  cases h

/-- A command concludes if all that it is to log last is written. -/
theorem conclude_of_writes {integers : List Int} (h : ∀ i ∈ integers, limit.writes i = true)
    (log : List String → List LogLine) (code : Nat) (stdout : String) (ending : List String) :
    conclude limit log code stdout ending integers = .finished code stdout (log ending) :=
  if_pos (List.all_eq_true.2 h)

/-- Only with this exit code a command concludes. -/
theorem code_of_conclude {integers : List Int} {log : List String → List LogLine}
    {printed : String} {ending : List String}
    (h : (conclude limit log code printed ending integers).Exits code' stdout) : code' = code := by
  unfold conclude at h
  split at h
  · cases h
    rfl
  · cases h

/-- From some bound on the command ends with this exit code, having printed this. -/
def Concludes (run : Nat → Result) (code : Nat) (stdout : String) : Prop :=
  ∃ bound, ∀ fuel, bound ≤ fuel → (run fuel).Exits code stdout

/-! ### Running a program -/

namespace RunOptions

variable {o : RunOptions} {machine : Machine} {error : Cells.Error}

/-- A run notes nothing that cannot be written. -/
theorem notes_of_runImage {input : List Int} {settings : Settings} :
    ∀ e ∈ (runImage limit fuel image input settings).log, limit.notes e = true := by
  unfold runImage
  split
  · simp
  · rename_i hrun
    exact Machine.notes_of_runWithin hrun

/-- The command notes nothing that cannot be written. -/
theorem notes_of_execute :
    ∀ e ∈ (o.execute limits fuel content).log, limits.digits.notes e = true := by
  refine Logged.forall_log_bind Image.notes_of_load fun image _ => ?_
  refine Logged.forall_log_bind (by simp) fun cells hcells => ?_
  obtain ⟨pairs, hpairs, rfl⟩ := Cells.parse_eq_ok_iff.1 (Logged.mapError_eq_ok.1 hcells)
  exact Logged.forall_log_bind (Image.notes_of_patch hpairs) fun patched _ => notes_of_runImage

theorem within_execute (refused : RunFailure) :
    (o.execute limits fuel content).within limits.digits refused =
      o.execute limits fuel content :=
  Logged.within_of_notes notes_of_execute refused

theorem result_of_load (h : (o.execute limits fuel content).outcome = .error (.load reason)) :
    o.result limits fuel content =
      if reason.isReported then
        conclude limits.digits (o.log (o.execute limits fuel content).log) 4 ""
          [s!"Program could not be loaded: {reason.message}"] reason.integers
      else .aborted (.load reason) "" (o.log (o.execute limits fuel content).log []) := by
  unfold result
  rw [within_execute]
  dsimp only
  rw [h]
  rfl

theorem exits_of_load (h : (o.execute limits fuel content).outcome = .error (.load reason))
    (hreported : reason.isReported = true)
    (hwrites : ∀ i ∈ reason.integers, limits.digits.writes i = true) :
    (o.result limits fuel content).Exits 4 "" := by
  rw [result_of_load h, if_pos hreported, conclude_of_writes hwrites]
  exact .finished _ _ _

/-- What is not reported ends the command without an exit code of its own. -/
theorem not_exits_of_load (h : (o.execute limits fuel content).outcome = .error (.load reason))
    (hreported : reason.isReported = false) :
    ¬(o.result limits fuel content).Exits code stdout := by
  rw [result_of_load h, if_neg (by simp [hreported])]
  exact Result.not_exits_aborted _ _ _ _ _

theorem exits_of_cells (h : (o.execute limits fuel content).outcome = .error (.cells error)) :
    (o.result limits fuel content).Exits 2 "" := by
  unfold result
  rw [within_execute]
  dsimp only
  rw [h]
  exact .usageError

theorem exits_of_fault (h : (o.execute limits fuel content).outcome = .error (.fault fault))
    (hwrites : ∀ i ∈ fault.integers, limits.digits.writes i = true) :
    (o.result limits fuel content).Exits 100 "" := by
  unfold result
  rw [within_execute]
  dsimp only
  rw [h]
  dsimp only
  rw [conclude_of_writes hwrites]
  exact .finished _ _ _

/-- What is refused ends the command, and nothing is printed. -/
theorem result_of_refused {refusal : DigitLimit.Refusal}
    (h : (o.execute limits fuel content).outcome = .error (.refused refusal)) :
    o.result limits fuel content =
      .aborted (.refused refusal) "" (o.log (o.execute limits fuel content).log []) := by
  unfold result
  rw [within_execute]
  dsimp only
  rw [h]

theorem result_of_machine (h : (o.execute limits fuel content).outcome = .ok machine) :
    o.result limits fuel content =
      o.report limits.digits (o.execute limits fuel content).log machine := by
  unfold result
  rw [within_execute]
  dsimp only
  rw [h]

theorem exits_of_machine (h : (o.execute limits fuel content).outcome = .ok machine)
    (hvalues : ∀ v ∈ (Report.parts o.settings machine.output.queue).2,
      limits.digits.writes v = true)
    (hip : machine.status = .suspended → limits.digits.writes machine.ip = true) :
    (o.result limits fuel content).Exits (if machine.status = .suspended then 1 else 0)
      (Report.render o.settings machine.output.queue) := by
  rw [result_of_machine h]
  unfold report
  rw [Report.print_of_writes hvalues]
  dsimp only
  by_cases hstatus : machine.status = .suspended
  · rw [if_pos hstatus, if_pos hstatus, conclude_of_writes (by simpa using hip hstatus)]
    exact .finished _ _ _
  · rw [if_neg hstatus, if_neg hstatus, conclude_of_writes (by simp)]
    exact .finished _ _ _

/-- A value that is not written ends the command, and all that is printed is what is in front. -/
theorem aborts_of_machine {front back : List Int} {v : Int}
    (h : (o.execute limits fuel content).outcome = .ok machine)
    (hparts : (Report.parts o.settings machine.output.queue).2 = front ++ v :: back)
    (hfront : ∀ w ∈ front, limits.digits.writes w = true) (hv : limits.digits.writes v = false) :
    o.result limits fuel content =
      .aborted (.refused (.write limits.digits))
        (Report.closed (Report.parts o.settings machine.output.queue).1 ++ Report.lines front)
        (o.log (o.execute limits fuel content).log []) := by
  rw [result_of_machine h, report, Report.print_of_refused hparts hfront hv]

/-- A file that does not load ends the work. -/
theorem execute_of_unloadable
    (h : (Image.load limits.digits o.program content).outcome = .error reason) :
    (o.execute limits fuel content).outcome = .error (.load reason) := by
  exact Logged.outcome_bind_eq_error.2 (.inl (Logged.mapError_of_error h _))

/-- If the file loads, a text that is no cell ends the work. -/
theorem execute_of_no_cells
    (hload : (Image.load limits.digits o.program content).outcome = .ok image)
    (h : Cells.parse o.cells limits.digits = .error error) :
    (o.execute limits fuel content).outcome = .error (.cells error) := by
  exact Logged.outcome_bind_eq_error.2 (.inr ⟨image, Logged.mapError_eq_ok.2 hload,
    Logged.outcome_bind_eq_error.2 (.inl (Logged.mapError_of_error h _))⟩)

/-- With an image and cells the work is to overwrite them and to run. -/
theorem execute_of_cells
    (hload : (Image.load limits.digits o.program content).outcome = .ok image)
    (hcells : Cells.parse o.cells limits.digits = .ok cells) :
    (o.execute limits fuel content).outcome =
      ((Image.patch limits.room image cells).mapError RunFailure.load >>= fun image =>
        runImage limits.digits fuel image o.feed o.settings).outcome := by
  have himage : ((Image.load limits.digits o.program content).mapError RunFailure.load).outcome =
      .ok image := Logged.mapError_eq_ok.2 hload
  have hmap : (Cells.parse o.cells limits.digits).mapError RunFailure.cells = .ok cells :=
    Logged.mapError_eq_ok.2 hcells
  simp only [execute, Logged.bind_of_ok himage, hmap]
  rfl

/-- Cells that cannot be overwritten end the work. -/
theorem execute_of_unpatchable
    (hload : (Image.load limits.digits o.program content).outcome = .ok image)
    (hcells : Cells.parse o.cells limits.digits = .ok cells)
    (h : (Image.patch limits.room image cells).outcome = .error reason) :
    (o.execute limits fuel content).outcome = .error (.load reason) := by
  rw [execute_of_cells hload hcells]
  exact Logged.outcome_bind_eq_error.2 (.inl (Logged.mapError_of_error h _))

/-- With a patched image the work is to run it. -/
theorem execute_of_patched
    (hload : (Image.load limits.digits o.program content).outcome = .ok image)
    (hcells : Cells.parse o.cells limits.digits = .ok cells)
    (h : (Image.patch limits.room image cells).outcome = .ok patched) :
    (o.execute limits fuel content).outcome =
      (runImage limits.digits fuel patched o.feed o.settings).outcome := by
  rw [execute_of_cells hload hcells, Logged.outcome_bind, Logged.outcome_mapError, h]
  rfl

end RunOptions

/-! ### Running an amplifier -/

namespace AmplifyOptions

variable {o : AmplifyOptions} {error : Amplifier.Error} {found : Found}

theorem within_execute (hnotes : ∀ e ∈ (o.execute limit fuel content).log, limit.notes e = true)
    (refused : AmplifyFailure) :
    (o.execute limit fuel content).within limit refused = o.execute limit fuel content :=
  Logged.within_of_notes hnotes refused

/-- A file that does not load ends the work. -/
theorem execute_of_unloadable (h : (Image.load limit o.program content).outcome = .error reason) :
    (o.execute limit fuel content).outcome = .error (.load reason) := by
  exact Logged.outcome_bind_eq_error.2 (.inl (Logged.mapError_of_error h _))

/-- A file that does not load ends the command. -/
theorem result_of_unloadable (h : (Image.load limit o.program content).outcome = .error reason) :
    o.result limit fuel content =
      if reason.isReported then
        .finished 4 "" (o.log (o.execute limit fuel content).log
          [s!"Program could not be loaded: {reason.message}"])
      else .aborted (.load reason) "" (o.log (o.execute limit fuel content).log []) := by
  have hnotes : ∀ e ∈ (o.execute limit fuel content).log, limit.notes e = true := by
    refine Logged.forall_log_bind Image.notes_of_load ?_
    intro image himage
    cases h.symm.trans (Logged.mapError_eq_ok.1 himage)
  unfold result
  rw [within_execute hnotes]
  dsimp only
  rw [execute_of_unloadable h]
  dsimp only
  rw [conclude_of_writes (by simp [Image.integers_of_load h])]
  rfl

theorem exits_of_error
    (h : (o.execute limit fuel content).outcome = .error (.amplifier (.error error)))
    (hnotes : ∀ e ∈ (o.execute limit fuel content).log, limit.notes e = true)
    (hwrites : ∀ i ∈ error.integers, limit.writes i = true) :
    (o.result limit fuel content).Exits 5 "" := by
  unfold result
  rw [within_execute hnotes]
  dsimp only
  rw [h]
  dsimp only
  rw [conclude_of_writes hwrites]
  exact .finished _ _ _

theorem exits_of_fault
    (h : (o.execute limit fuel content).outcome = .error (.amplifier (.fault fault)))
    (hnotes : ∀ e ∈ (o.execute limit fuel content).log, limit.notes e = true)
    (hwrites : ∀ i ∈ fault.integers, limit.writes i = true) :
    (o.result limit fuel content).Exits 100 "" := by
  unfold result
  rw [within_execute hnotes]
  dsimp only
  rw [h]
  dsimp only
  rw [conclude_of_writes hwrites]
  exact .finished _ _ _

/-- The command ends with what it found exactly if all of it is written. -/
theorem exits_report_iff {events : List Event} :
    (o.report limit events found).Exits code stdout ↔
      code = 0 ∧ stdout = found.text ∧ ∀ i ∈ found.integers, limit.writes i = true := by
  unfold report Found.print
  by_cases hwrites : ∀ i ∈ found.integers, limit.writes i = true
  · rw [if_pos (List.all_eq_true.2 hwrites)]
    dsimp only
    constructor
    · intro h
      cases h
      exact ⟨rfl, rfl, hwrites⟩
    · intro h
      obtain ⟨rfl, rfl, -⟩ := h
      exact .finished _ _ _
  · rw [if_neg fun hall => hwrites (List.all_eq_true.1 hall)]
    dsimp only
    exact iff_of_false (Result.not_exits_aborted _ _ _ _ _) fun h => hwrites h.2.2

theorem result_of_ok (h : (o.execute limit fuel content).outcome = .ok found)
    (hnotes : ∀ e ∈ (o.execute limit fuel content).log, limit.notes e = true) :
    o.result limit fuel content = o.report limit (o.execute limit fuel content).log found := by
  unfold result
  rw [within_execute hnotes]
  dsimp only
  rw [h]

/-- If something that is found is not written, the command does not end with an exit code. -/
theorem not_exits_of_unwritten (h : (o.execute limit fuel content).outcome = .ok found)
    (hunwritten : ∃ i ∈ found.integers, limit.writes i = false) :
    ¬(o.result limit fuel content).Exits code stdout := by
  unfold result Logged.within
  split
  · dsimp only
    rw [h]
    intro hexits
    obtain ⟨i, hi, hfalse⟩ := hunwritten
    rw [(exits_report_iff.1 hexits).2.2 i hi] at hfalse
    cases hfalse
  · exact Result.not_exits_aborted _ _ _ _ _

/-- Only work that ends well, and all of which is written, lets the command end with success. -/
theorem execute_of_exits (h : (o.result limit fuel content).Exits 0 stdout) :
    ∃ found, (o.execute limit fuel content).outcome = .ok found ∧ stdout = found.text ∧
      (∀ e ∈ (o.execute limit fuel content).log, limit.notes e = true) ∧
      ∀ i ∈ found.integers, limit.writes i = true := by
  unfold result at h
  rcases hwork : ((o.execute limit fuel content).within limit (.refused (.write limit))).outcome
    with (reason | (fault | error | _) | refusal) | found <;>
    simp only [hwork] at h
  · split at h
    · exact absurd (code_of_conclude h) (by decide)
    · cases h
  · exact absurd (code_of_conclude h) (by decide)
  · exact absurd (code_of_conclude h) (by decide)
  · cases h
  · cases h
  · obtain ⟨hout, hnotes⟩ := Logged.notes_of_within hwork
    obtain ⟨-, hstdout, hwrites⟩ := exits_report_iff.1 h
    exact ⟨found, hout, hstdout, hnotes, hwrites⟩

/-- With an image the work is to give it to the amplifier. -/
theorem execute_of_load (h : (Image.load limit o.program content).outcome = .ok image) :
    (o.execute limit fuel content).outcome =
      (o.amplify fuel image).outcome.mapError .amplifier := by
  have himage : ((Image.load limit o.program content).mapError AmplifyFailure.load).outcome =
      .ok image := Logged.mapError_eq_ok.2 h
  simp only [execute, Logged.bind_of_ok himage, Logged.outcome_mapError]

/-- With an image the command notes all of its work if it notes that of the amplifier. -/
theorem notes_of_load (h : (Image.load limit o.program content).outcome = .ok image) :
    (∀ e ∈ (o.execute limit fuel content).log, limit.notes e = true) ↔
      ∀ e ∈ (o.amplify fuel image).log, limit.notes e = true := by
  have himage : ((Image.load limit o.program content).mapError AmplifyFailure.load).outcome =
      .ok image := Logged.mapError_eq_ok.2 h
  rw [execute, Logged.bind_of_ok himage]
  dsimp only
  rw [List.forall_mem_append, Logged.log_mapError, Logged.log_mapError]
  exact and_iff_right Image.notes_of_load

end AmplifyOptions

end CellMachine.Command
