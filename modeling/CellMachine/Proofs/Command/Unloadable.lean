import CellMachine.Proofs.Command.AmplifyExits
import CellMachine.Proofs.Command.RunExits

/-!
# CellMachine.Proofs.Command.Unloadable

**What becomes of files that do not load.** A file that is missing, that is a directory or whose
text is no program is reported, with an exit code of its own. Bytes that are no text are not, and
neither is a text with an integer that has too many digits: they end both commands with none of the
codes that are theirs, as does a path that no file can have. `Legible` keeps these apart, and both
commands exit, and report what does not load, exactly if the file is legible (`exits_iff_legible`).
-/

namespace CellMachine

variable {limits : Limits} {limit : DigitLimit} {path : FilePath}
variable {content : Except ReadError ByteArray}

/-! ### Files as bytes -/

namespace Image

/-- The file can be read, its bytes are the text of a program for this image, and no integer in it
has too many digits. -/
def Obtains (limit : DigitLimit) (content : Except ReadError ByteArray) (image : Image) : Prop :=
  ∃ file, content = file.map String.toUTF8 ∧ Loads file image ∧ ¬OverlongFile limit file

/-- The path is one that a file can have, and the bytes of the file, if it can be read, are those of
a text in which no integer that is read has too many digits. -/
def Legible (limit : DigitLimit) (path : FilePath) (content : Except ReadError ByteArray) : Prop :=
  path.hasNul = false ∧ ∃ file : Except ReadError String, content = file.map String.toUTF8 ∧
    ¬OverlongFile limit file

/-- Bytes in which a text is found are the bytes of a text. -/
theorem exists_text_of_textOfBytes? {bytes : ByteArray} {text : String}
    (h : textOfBytes? bytes = some text) : ∃ written : String, bytes = written.toUTF8 := by
  obtain ⟨written, hwritten, -⟩ := Option.map_eq_some_iff.1 h
  unfold String.fromUTF8? at hwritten
  split at hwritten
  · rename_i hbytes
    exact ⟨String.fromUTF8 bytes hbytes, rfl⟩
  · cases hwritten

/-- A byte that is no text. -/
theorem load_no_text : (load .usual (.ofString "prog.txt") (.ok ⟨#[0xff]⟩)).outcome =
    .error (.undecodable (.ofString "prog.txt")) := rfl

/-- What is not legible fails to load, for a reason that is not reported. -/
theorem load_of_not_legible (h : ¬Legible limit path content) :
    ∃ reason, (load limit path content).outcome = .error reason ∧ reason.isReported = false := by
  cases hnul : path.hasNul with
  | true => exact ⟨.nulInPath, by simp [load, hnul, Logged.outcome_bind, Except.bind], rfl⟩
  | false =>
      have hover : ∀ file : Except ReadError String, content = file.map String.toUTF8 →
          ∃ reason, (load limit path content).outcome = .error reason ∧
            reason.isReported = false := by
        intro file hfile
        subst hfile
        have hoverlong : OverlongFile limit file := by
          by_contra hshort
          exact h ⟨hnul, file, rfl, hshort⟩
        obtain ⟨refusal, hload⟩ := load_of_overlong hnul hoverlong
        exact ⟨_, hload, rfl⟩
      cases content with
      | error reason => exact hover (.error reason) rfl
      | ok bytes =>
          cases htext : textOfBytes? bytes with
          | none =>
              refine ⟨.undecodable path, ?_, rfl⟩
              simp [load, hnul, htext, Logged.outcome_bind, Except.bind]
          | some text =>
              obtain ⟨written, rfl⟩ := exists_text_of_textOfBytes? htext
              exact hover (.ok written) rfl

/-- What is legible fails to load only for a reason that is reported. -/
theorem Legible.isReported {reason : LoadError} (hlegible : Legible limit path content)
    (h : (load limit path content).outcome = .error reason) : reason.isReported = true := by
  obtain ⟨hnul, file, rfl, hshort⟩ := hlegible
  exact isReported_of_load hnul hshort h

/-- What is legible and holds no program fails to load. -/
theorem Legible.exists_error (hlegible : Legible limit path content)
    (h : ∀ image, ¬Obtains limit content image) :
    ∃ reason, (load limit path content).outcome = .error reason := by
  obtain ⟨hnul, file, rfl, hshort⟩ := hlegible
  cases hload : (load limit path (file.map String.toUTF8)).outcome with
  | ok image => exact absurd ⟨file, rfl, (load_eq_ok_iff hnul).1 hload⟩ (h image)
  | error reason => exact ⟨reason, rfl⟩

/-- From what does not load no image can be obtained. -/
theorem not_obtains_of_load {reason : LoadError} (hnul : path.hasNul = false)
    (h : (load limit path content).outcome = .error reason) :
    ∀ image, ¬Obtains limit content image := by
  intro image hobtains
  obtain ⟨file, rfl, hloads⟩ := hobtains
  rw [(load_eq_ok_iff hnul).2 hloads] at h
  cases h

end Image

namespace Command

open Image (Obtains Legible)

/-! ### Reports -/

/-- The command ended with the exit code for what does not load: it printed nothing, and the last
line that it logged says why. -/
def Result.Reports (result : Result) (reason : LoadError) : Prop :=
  ∃ log, result = .finished 4 "" log ∧
    log.getLast? = some ⟨.info, s!"Program could not be loaded: {reason.message}"⟩

/-- What is known of a command by the file it is given: here `codes` are the exit codes of the
command, and `Settles` says that its options are sound and its machines come to rest. -/
structure Accounts (limit : DigitLimit) (path : FilePath) (content : Except ReadError ByteArray)
    (codes : List Nat) (Settles : Prop) (command : Nat → Result) : Prop where
  /-- It ends with one of its exit codes exactly if the file is legible. -/
  concludes : Settles →
    ((∃ code ∈ codes, ∃ stdout, Concludes command code stdout) ↔ Legible limit path content)
  /-- What holds no program it reports, and says why, exactly if it is legible. -/
  reports : (∀ image, ¬Obtains limit content image) → ∀ fuel,
    (∃ reason, (Image.load limit path content).outcome = .error reason ∧
      (command fuel).Reports reason) ↔ Legible limit path content
  /-- What is not legible ends it with no exit code at all, and nothing printed. -/
  aborts : ¬Legible limit path content →
    ∀ fuel, (∃ reason log, command fuel = .aborted (.load reason) "" log) ∧
      ∀ code stdout, ¬(command fuel).Exits code stdout

/-- A command accounts for every file if it concludes where the file is legible, and ends as it does
where the image does not load. -/
theorem accounts_of_load {codes : List Nat} {Settles : Prop} {command : Nat → Result}
    (hconcludes : Settles → Legible limit path content →
      ∃ code ∈ codes, ∃ stdout, Concludes command code stdout)
    (hreports : ∀ reason, (Image.load limit path content).outcome = .error reason →
      reason.isReported = true → ∀ fuel, (command fuel).Reports reason)
    (haborts : ∀ reason, (Image.load limit path content).outcome = .error reason →
      reason.isReported = false → ∀ fuel, ∃ log, command fuel = .aborted (.load reason) "" log) :
    Accounts limit path content codes Settles command := by
  have hnot : ¬Legible limit path content →
      ∃ reason, ∀ fuel, ∃ log, command fuel = .aborted (.load reason) "" log := by
    intro h
    obtain ⟨reason, hload, hreported⟩ := Image.load_of_not_legible h
    exact ⟨reason, haborts reason hload hreported⟩
  refine ⟨fun hsettles => ⟨?_, hconcludes hsettles⟩, fun hnone fuel => ⟨?_, ?_⟩, ?_⟩
  · intro hexits
    by_contra h
    obtain ⟨code, -, stdout, bound, hbound⟩ := hexits
    obtain ⟨reason, haborted⟩ := hnot h
    obtain ⟨log, haborted⟩ := haborted bound
    have hexits := hbound bound (Nat.le_refl bound)
    rw [haborted] at hexits
    exact Result.not_exits_aborted _ _ _ _ _ hexits
  · intro hreport
    by_contra h
    obtain ⟨reason, haborted⟩ := hnot h
    obtain ⟨log, haborted⟩ := haborted fuel
    obtain ⟨_, -, _, hfinished, -⟩ := hreport
    rw [haborted] at hfinished
    cases hfinished
  · intro hlegible
    obtain ⟨reason, hload⟩ := hlegible.exists_error hnone
    exact ⟨reason, hload, hreports reason hload (hlegible.isReported hload) fuel⟩
  · intro h fuel
    obtain ⟨reason, haborted⟩ := hnot h
    obtain ⟨log, haborted⟩ := haborted fuel
    rw [haborted]
    exact ⟨⟨reason, log, rfl⟩, Result.not_exits_aborted _ _ _⟩

/-- The last line of a log is how the command ended. -/
theorem getLast?_logLines (verbose : Bool) (banner : String) (events : List Event)
    (ending : String) :
    (logLines verbose banner events [ending]).getLast? = some ⟨.info, ending⟩ := by
  have hshown : isShown verbose ⟨.info, ending⟩ = true := by simp [isShown]
  simp [logLines, hshown]

/-! ### Running a program -/

namespace RunOptions

variable {o : RunOptions} {fuel : Nat} {reason : LoadError}

/-- The cells make sense and there is room for them, and the machine comes to rest, all that it
notes and all that there is to tell of it being written. -/
def Settles (o : RunOptions) (limits : Limits) (content : Except ReadError ByteArray) : Prop :=
  (∀ cell ∈ o.cells, ∃ pair, Cells.IsCell limits.digits cell pair) ∧
    ∀ file, content = file.map String.toUTF8 → o.HasRoom limits file ∧
      ∀ m, o.Starts limits file m → ∃ last outcome,
        m.RunsWithin limits.digits last outcome ∧ o.Written limits.digits last outcome

/-- With no cells to overwrite it is enough that the machine of the image comes to rest. -/
theorem settles_of_run {image : Image} {last : Machine} {outcome : Except Fault Status}
    (hnul : o.program.hasNul = false) (hcells : o.cells = [])
    (hload : (Image.load limits.digits o.program content).outcome = .ok image)
    (hruns : (Machine.load image o.feed o.settings.trace).RunsWithin limits.digits last outcome)
    (hwritten : o.Written limits.digits last outcome) : o.Settles limits content := by
  refine ⟨by simp [hcells], fun file hfile => ⟨?_, ?_⟩⟩
  · intro image' pairs _ hpairs
    rw [hcells] at hpairs
    cases hpairs
    exact fun cell hcell => by cases hcell
  · intro m hm
    obtain ⟨image', pairs, patched, hloads, hpairs, hpatch, rfl⟩ := hm
    rw [hfile] at hload
    obtain rfl := hloads.unique ((Image.load_eq_ok_iff hnul).1 hload).1
    rw [hcells] at hpairs
    cases hpairs
    obtain rfl := Except.ok.inj hpatch
    exact ⟨last, outcome, hruns, hwritten⟩

/-- A program that stops at once comes to rest, with nothing to tell. -/
theorem settles_stop : plain.Settles {} (.ok "99".toUTF8) := by
  have hload : (Image.load .usual (.ofString "prog.txt") (.ok "99".toUTF8)).outcome =
      .ok [99] := (Image.load_eq_ok_iff rfl).2 loads_stop
  obtain ⟨r, hr, hrest⟩ := Option.map_eq_some_iff.1 (show
    ((Machine.load [99] [] false).runWithin .usual 1).map
      (fun r => (r.outcome, r.machine.output.queue)) = some (.ok (.ok .halted), []) by
      decide +kernel)
  simp only [Prod.mk.injEq] at hrest
  refine settles_of_run rfl rfl hload ⟨1, r, hr, rfl, hrest.1⟩ ⟨?_, by simp⟩
  rw [hrest.2]
  simp [plain, Report.parts]

theorem reports_of_load (h : (Image.load limits.digits o.program content).outcome = .error reason)
    (hreported : reason.isReported = true) : (o.result limits fuel content).Reports reason := by
  refine ⟨_, ?_, getLast?_logLines (o.verbose || o.settings.trace) "INTCODE"
    (o.execute limits fuel content).log _⟩
  rw [result_of_load (execute_of_unloadable h), if_pos hreported,
    conclude_of_writes (by simp [Image.integers_of_load h])]
  rfl

theorem aborts_of_load (h : (Image.load limits.digits o.program content).outcome = .error reason)
    (hreported : reason.isReported = false) :
    ∃ log, o.result limits fuel content = .aborted (.load reason) "" log := by
  rw [result_of_load (execute_of_unloadable h), if_neg (by simp [hreported])]
  exact ⟨_, rfl⟩

/-- Sound options let the command conclude with one of its codes. -/
theorem exists_concludes (hsettles : o.Settles limits content)
    (hlegible : Legible limits.digits o.program content) :
    ∃ code ∈ RunExit.all.map RunExit.code, ∃ stdout,
      Concludes (fun fuel => o.result limits fuel content) code stdout := by
  obtain ⟨hcells, hsettles⟩ := hsettles
  obtain ⟨hnul, file, rfl, hshort⟩ := hlegible
  obtain ⟨hroom, hrests⟩ := hsettles file rfl
  obtain ⟨code, stdout, hconcludes, hending⟩ := exists_ending hnul hshort hroom hrests
  refine ⟨code, ?_, stdout, hconcludes⟩
  -- of the codes that there are, one is for cells that make no sense
  have hsound : code ≠ 2 := by
    intro h
    obtain ⟨-, cell, hcell, hbad⟩ := hending.usageError.1 h
    obtain ⟨pair, hpair⟩ := hcells cell hcell
    exact hbad pair hpair
  have hmem := hending.mem
  simp only [List.mem_cons, List.not_mem_nil, or_false] at hmem
  rcases hmem with rfl | rfl | rfl | rfl | rfl
  · decide
  · decide
  · exact absurd rfl hsound
  · decide
  · decide

end RunOptions

/-! ### Running an amplifier -/

namespace AmplifyOptions

variable {o : AmplifyOptions} {fuel : Nat} {reason : LoadError}

/-- The amplifier comes to an end, all that its machines note and all that there is to tell of it
being written. -/
def Settles (o : AmplifyOptions) (limit : DigitLimit) (content : Except ReadError ByteArray) :
    Prop :=
  ∀ image, Obtains limit content image →
    ∃ outcome, o.Comes image outcome ∧ o.Written limit image outcome

theorem reports_of_load (h : (Image.load limit o.program content).outcome = .error reason)
    (hreported : reason.isReported = true) : (o.result limit fuel content).Reports reason := by
  refine ⟨_, ?_, getLast?_logLines o.verbose "INTCODE AMPLIFIER"
    (o.execute limit fuel content).log _⟩
  rw [result_of_unloadable h, if_pos hreported]
  rfl

theorem aborts_of_load (h : (Image.load limit o.program content).outcome = .error reason)
    (hreported : reason.isReported = false) :
    ∃ log, o.result limit fuel content = .aborted (.load reason) "" log := by
  rw [result_of_unloadable h, if_neg (by simp [hreported])]
  exact ⟨_, rfl⟩

/-- An amplifier that comes to an end lets the command conclude with one of its codes. -/
theorem exists_concludes (hsettles : o.Settles limit content)
    (hlegible : Legible limit o.program content) :
    ∃ code ∈ AmplifyExit.all.map AmplifyExit.code, ∃ stdout,
      Concludes (fun fuel => o.result limit fuel content) code stdout := by
  obtain ⟨hnul, file, rfl, hshort⟩ := hlegible
  by_cases hload : ∃ image, Image.Loads file image
  · obtain ⟨image, hload⟩ := hload
    obtain ⟨outcome, hcomes, hwritten⟩ := hsettles image ⟨file, rfl, hload, hshort⟩
    have himage := (Image.load_eq_ok_iff hnul).2 ⟨hload, hshort⟩
    refine ⟨AmplifyRequest.signalCode outcome, ?_, AmplifyRequest.signalOutput outcome,
      AmplifyRequest.concludes_of_comes himage hcomes hwritten⟩
    have hmem := (AmplifyRequest.signalCode_of_ne hcomes.settles.1).1
    simp only [List.mem_cons, List.not_mem_nil, or_false] at hmem
    rcases hmem with h | h | h <;> rw [h] <;> decide
  · have hnone : ∀ image, ¬Image.Loads file image := fun image h => hload ⟨image, h⟩
    exact ⟨4, by decide, "", 0,
      fun fuel _ => AmplifyRequest.exits_of_unloadable hnul hshort hnone⟩

/-- The command does what its words ask for. -/
theorem amplify_of_words {words : List String} (h : ofWords? limit words = some o) (fuel : Nat)
    (read : FilePath → Except ReadError ByteArray) :
    Command.amplify limit fuel words read = o.result limit fuel (read o.program) := by
  obtain ⟨items, hread, h⟩ := Option.bind_eq_some_iff.1 h
  rw [Option.ite_none_left_eq_some, Bool.not_eq_true] at h
  simp only [Command.amplify, hread, h.1, h.2]
  exact if_neg Bool.false_ne_true

end AmplifyOptions

/-- A command that is given a program file and nothing else. -/
theorem AmplifyOptions.ofWords?_plain :
    AmplifyOptions.ofWords? .usual ["prog.txt"] =
      some ⟨false, [0, 1, 2, 3, 4], .chain, false, 0, .ofString "prog.txt"⟩ := rfl

/-! ### Both commands -/

/-- **Both commands exit, and report what does not load, exactly if the file is legible.** -/
theorem exits_iff_legible (limits : Limits) (words : List String)
    (read : FilePath → Except ReadError ByteArray) :
    (∀ o, RunOptions.ofWords? limits.digits words = some o →
      Accounts limits.digits o.program (read o.program) (RunExit.all.map RunExit.code)
        (o.Settles limits (read o.program)) fun fuel => run limits fuel words read) ∧
    ∀ o, AmplifyOptions.ofWords? limits.digits words = some o →
      Accounts limits.digits o.program (read o.program) (AmplifyExit.all.map AmplifyExit.code)
        (o.Settles limits.digits (read o.program))
        fun fuel => amplify limits.digits fuel words read := by
  constructor
  · intro o hwords
    simp only [RunOptions.run_of_words hwords]
    exact accounts_of_load RunOptions.exists_concludes
      (fun _ h hreported _ => RunOptions.reports_of_load h hreported)
      fun _ h hreported _ => RunOptions.aborts_of_load h hreported
  · intro o hwords
    simp only [AmplifyOptions.amplify_of_words hwords]
    exact accounts_of_load AmplifyOptions.exists_concludes
      (fun _ h hreported _ => AmplifyOptions.reports_of_load h hreported)
      fun _ h hreported _ => AmplifyOptions.aborts_of_load h hreported

/-- A program that stops ends the command with one of its codes, a directory and a text that is no
program are reported, and a byte that is no text ends both commands with no exit code. -/
theorem exits_iff_legible_no_text :
    (∃ code ∈ RunExit.all.map RunExit.code, ∃ stdout,
      Concludes (fun fuel => run {} fuel ["prog.txt"] fun _ => .ok "99".toUTF8) code stdout) ∧
    (∃ reason, (run {} 0 ["prog.txt"] fun _ => .error .isDirectory).Reports reason) ∧
    (∃ reason, (amplify .usual 0 ["prog.txt"] fun _ => .ok "1,,2".toUTF8).Reports reason) ∧
    ∀ fuel code stdout, ¬(run {} fuel ["prog.txt"] fun _ => .ok ⟨#[0xff]⟩).Exits code stdout ∧
      ¬(amplify .usual fuel ["prog.txt"] fun _ => .ok ⟨#[0xff]⟩).Exits code stdout := by
  have hrun := RunOptions.ofWords?_plain
  have hamplify := AmplifyOptions.ofWords?_plain
  have hnul : (FilePath.ofString "prog.txt").hasNul = false := rfl
  refine ⟨?_, ?_, ?_, ?_⟩
  · exact (((exits_iff_legible {} ["prog.txt"] (fun _ => .ok "99".toUTF8)).1 _ hrun).concludes
      RunOptions.settles_stop).2 ⟨hnul, .ok "99", rfl, RunOptions.loads_stop.2⟩
  · have hload : (Image.load .usual (.ofString "prog.txt") (.error .isDirectory)).outcome =
        .error (.unreadable (.ofString "prog.txt") .isDirectory) := rfl
    have hshort : ¬Image.OverlongFile .usual (.error .isDirectory) := by
      intro h
      cases h.choose_spec.1
    obtain ⟨reason, -, hreports⟩ :=
      (((exits_iff_legible {} ["prog.txt"] (fun _ => .error .isDirectory)).1 _ hrun).reports
        (Image.not_obtains_of_load hnul hload) 0).2 ⟨hnul, .error .isDirectory, rfl, hshort⟩
    exact ⟨reason, hreports⟩
  · have hload : (Image.load .usual (.ofString "prog.txt") (.ok "1,,2".toUTF8)).outcome =
        .error (.malformed ⟨.endOfText, ⟨1, 2⟩⟩) := by decide +kernel
    have hshort : ¬Image.OverlongFile .usual (.ok "1,,2") := by
      intro h
      obtain ⟨refusal, hover⟩ := Image.load_of_overlong hnul h
      cases hload.symm.trans hover
    obtain ⟨reason, -, hreports⟩ :=
      (((exits_iff_legible {} ["prog.txt"] (fun _ => .ok "1,,2".toUTF8)).2 _ hamplify).reports
        (Image.not_obtains_of_load hnul hload) 0).2 ⟨hnul, .ok "1,,2", rfl, hshort⟩
    exact ⟨reason, hreports⟩
  · intro fuel code stdout
    have hbytes : ¬Legible .usual (.ofString "prog.txt") (.ok ⟨#[0xff]⟩) := by
      intro h
      exact absurd (h.isReported Image.load_no_text) (by decide)
    exact ⟨(((exits_iff_legible {} ["prog.txt"] (fun _ => .ok ⟨#[0xff]⟩)).1 _ hrun).aborts hbytes
        fuel).2 code stdout,
      (((exits_iff_legible {} ["prog.txt"] (fun _ => .ok ⟨#[0xff]⟩)).2 _ hamplify).aborts hbytes
        fuel).2 code stdout⟩

/-- No image can be obtained from a file that holds this, and both commands are aborted. -/
def Unreported (content : Except ReadError ByteArray) : Prop :=
  (∀ image, ¬Obtains .usual content image) ∧ ∀ fuel,
    (∃ reason log, (run {} fuel ["prog.txt"] fun _ => content) =
      .aborted (.load reason) "" log) ∧
    ∃ reason log, (amplify .usual fuel ["prog.txt"] fun _ => content) =
      .aborted (.load reason) "" log

theorem unreported_of_load {reason : LoadError}
    (h : (Image.load .usual (.ofString "prog.txt") content).outcome = .error reason)
    (hreported : reason.isReported = false) : Unreported content := by
  refine ⟨Image.not_obtains_of_load rfl h, ?_⟩
  intro fuel
  rw [RunOptions.run_of_words RunOptions.ofWords?_plain,
    AmplifyOptions.amplify_of_words AmplifyOptions.ofWords?_plain]
  exact ⟨⟨reason, RunOptions.aborts_of_load h hreported⟩,
    ⟨reason, AmplifyOptions.aborts_of_load h hreported⟩⟩

/-- Neither a byte that is no text is reported, nor the decimal of an integer that has too many
digits. -/
theorem no_exit_without_text :
    Unreported (.ok ⟨#[0xff]⟩) ∧ Unreported (.ok DigitLimit.usual.least.repr.toUTF8) := by
  have hover : Image.OverlongFile .usual (.ok DigitLimit.usual.least.repr) :=
    (Image.overlongFile_decimal_iff _).2 (DigitLimit.not_writes_least (by decide))
  have hnul : (FilePath.ofString "prog.txt").hasNul = false := rfl
  obtain ⟨refusal, hload⟩ := Image.load_of_overlong hnul hover
  exact ⟨unreported_of_load Image.load_no_text rfl, unreported_of_load hload rfl⟩

end Command

end CellMachine
