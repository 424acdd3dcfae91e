import CellMachine.Proofs.Command.AmplifyExits
import CellMachine.Proofs.Command.RunExits

/-!
# CellMachine.Proofs.Command.Exits

**The exit codes tell the endings apart, and output is all or nothing.** Both commands together,
and where that ends: at paths that no file can have, for want of room, and at integers of more
digits than are read or written.
-/

namespace CellMachine.Command

/-! ### A machine that waits, and a chain of machines -/

/-- A program that reads a value to one cell, emits the value of another, and reads again. -/
def reader : Image := [3, 0, 4, 9, 3, 9, 99, 0, 0, 0]

/-- The text of the program. -/
def readerText : String := "3,0,4,9,3,9,99,0,0,0"

/-- The options give it a five, and let it read this to the cell that it emits. -/
def readerOptions : RunOptions := ⟨false, {}, [5], ["1=9"], none, .ofString "prog.txt"⟩

theorem loads_reader :
    Image.Loads (.ok readerText) reader ∧ ¬Image.OverlongFile .usual (.ok readerText) :=
  Image.loads_listed .usual reader (by decide) (by decide)

theorem cells_reader : List.Forall₂ (Cells.IsCell .usual) readerOptions.cells [(1, 9)] :=
  Cells.mapM_parseCell_eq_ok_iff.1 rfl

theorem hasRoom_reader : readerOptions.HasRoom {} (.ok readerText) := by
  intro image pairs hload hcells
  obtain rfl := loads_reader.1.unique hload
  obtain rfl := Cells.cells_unique cells_reader hcells
  unfold Image.HasRoom
  decide

theorem starts_reader :
    readerOptions.Starts {} (.ok readerText) (.load (reader.set 1 9) [5] false) :=
  ⟨_, _, _, loads_reader.1, cells_reader, rfl, rfl⟩

/-- The machine comes to rest waiting, and all there is to tell can be written. -/
theorem reader_waits :
    ∃ last, (Machine.load (reader.set 1 9) [5] false).RunsWithin .usual last (.ok .suspended) ∧
      readerOptions.Written .usual last (.ok .suspended) := by
  obtain ⟨r, hr, hrest⟩ := Option.map_eq_some_iff.1 (show
    ((Machine.load (reader.set 1 9) [5] false).runWithin .usual 3).map
      (fun r => (r.outcome, r.machine.output.queue, r.machine.ip)) =
      some (.ok (.ok .suspended), [5], 4) by decide +kernel)
  simp only [Prod.mk.injEq] at hrest
  obtain ⟨hout, hqueue, hip⟩ := hrest
  have hsmall : ∀ i ∈ [5, 4], DigitLimit.usual.writes i = true := by
    intro i hi
    exact DigitLimit.usual.writes_of_lt (k := 1) (by decide) (by revert i; decide)
  refine ⟨r.machine, ⟨3, r, hr, rfl, hout⟩, ?_, ?_⟩
  · rw [hqueue]
    simpa [readerOptions, Report.parts] using hsmall 5 (by simp)
  · rw [hip]
    exact fun _ => hsmall 4 (by simp)

/-- A program that reads a phase and a signal, and emits the signal with the phase as one digit
more. -/
def appender : Image := [3, 15, 3, 16, 1002, 16, 10, 16, 1, 16, 15, 15, 4, 15, 99, 0, 0]

/-- The text of the program. -/
def appenderText : String := "3,15,3,16,1002,16,10,16,1,16,15,15,4,15,99,0,0"

/-- It lets three machines in a chain run the program. -/
def appenderRequest : AmplifyRequest := ⟨false, some "0,1,0", false, false, 0, "prog.txt"⟩

theorem loads_appender :
    Image.Loads (.ok appenderText) appender ∧ ¬Image.OverlongFile .usual (.ok appenderText) :=
  Image.loads_listed .usual appender (by decide) (by decide)

theorem comes_appender :
    (appenderRequest.withOrder [0, 1, 0]).Comes appender (.ok ⟨10, none⟩) :=
  ⟨.ok 10, Amplifier.settles_signal_iff.2 ⟨by simp, 7, rfl⟩, rfl⟩

theorem written_appender :
    (appenderRequest.withOrder [0, 1, 0]).Written .usual appender (.ok ⟨10, none⟩) :=
  AmplifyOptions.written_of_amplify 7 (by decide +kernel) (by decide +kernel) (by decide +kernel)

/-! ### Within the limits -/

/-- **Exit codes tell the endings apart, and output is all or nothing.** Given a path that a file
can have, integers in the file that can be read, room for the cells, machines that come to rest, and
that what they note and what there is to tell of them can be written, each command concludes with
an exit code that says in which of the ways described it ended, and has printed all there is to
print or nothing. -/
theorem exit_codes_exact (limits : Limits) :
    (∀ words read o file, RunOptions.ofWords? limits.digits words = some o →
      o.program.hasNul = false → read o.program = file.map String.toUTF8 →
      ¬Image.OverlongFile limits.digits file → o.HasRoom limits file →
      (∀ m, o.Starts limits file m → ∃ last outcome,
        m.RunsWithin limits.digits last outcome ∧ o.Written limits.digits last outcome) →
      ∃ code stdout, Concludes (fun fuel => run limits fuel words read) code stdout ∧
        o.Ending limits file code stdout) ∧
    ∀ words read r file, AmplifyRequest.ofWords? limits.digits words = some r →
      (FilePath.ofString r.program).hasNul = false →
      read (.ofString r.program) = file.map String.toUTF8 →
      ¬Image.OverlongFile limits.digits file →
      (∀ order image, r.order? limits.digits = some order → Image.Loads file image →
        ∃ outcome, (r.withOrder order).Comes image outcome ∧
          (r.withOrder order).Written limits.digits image outcome) →
      ∃ code stdout, Concludes (fun fuel => amplify limits.digits fuel words read) code stdout ∧
        r.Ending limits.digits file code stdout := by
  constructor
  · intro words read o file hwords hnul hread hshort hroom hrests
    simp only [RunOptions.run_of_words hwords, hread]
    exact RunOptions.exists_ending hnul hshort hroom hrests
  · intro words read r file hwords hnul hread hshort hcomes
    exact AmplifyRequest.exists_ending hwords hnul hread hshort hcomes

/-- A program that reads a value to a cell that the command overwrote, emits it and reads again: the
command ends waiting. And a chain of machines that append their phases as digits. -/
theorem exit_codes_exact_waiting_and_signal :
    (∃ stdout, Concludes (fun fuel => run {} fuel ["-i", "5", "-p", "1=9", "prog.txt"]
      fun _ => .ok "3,0,4,9,3,9,99,0,0,0".toUTF8) 1 stdout) ∧
    Concludes (fun fuel => amplify .usual fuel ["-p", "0,1,0", "prog.txt"]
      fun _ => .ok "3,15,3,16,1002,16,10,16,1,16,15,15,4,15,99,0,0".toUTF8) 0 "10\n" := by
  constructor
  · have hrests : ∀ m, readerOptions.Starts {} (.ok readerText) m → ∃ last outcome,
        m.RunsWithin .usual last outcome ∧ readerOptions.Written .usual last outcome := by
      intro m hm
      obtain rfl := hm.unique starts_reader
      obtain ⟨last, hlast⟩ := reader_waits
      exact ⟨last, _, hlast⟩
    obtain ⟨code, stdout, hconcludes, hending⟩ := (exit_codes_exact {}).1
      ["-i", "5", "-p", "1=9", "prog.txt"] (fun _ => .ok readerText.toUTF8) readerOptions
      (.ok readerText) rfl rfl rfl loads_reader.2 hasRoom_reader hrests
    obtain ⟨last, hruns, -⟩ := reader_waits
    obtain rfl := hending.suspended.2 ⟨_, last, starts_reader, hruns.runsTo⟩
    exact ⟨stdout, hconcludes⟩
  · have hcomes : ∀ order image, appenderRequest.order? .usual = some order →
        Image.Loads (.ok appenderText) image → ∃ outcome,
          (appenderRequest.withOrder order).Comes image outcome ∧
          (appenderRequest.withOrder order).Written .usual image outcome := by
      intro order image horder hload
      obtain rfl := loads_appender.1.unique hload
      obtain rfl : [0, 1, 0] = order := Option.some.inj horder
      exact ⟨_, comes_appender, written_appender⟩
    obtain ⟨code, stdout, hconcludes, hending⟩ := (exit_codes_exact {}).2
      ["-p", "0,1,0", "prog.txt"] (fun _ => .ok appenderText.toUTF8) appenderRequest
      (.ok appenderText) rfl rfl rfl loads_appender.2 hcomes
    have hfound : appenderRequest.Comes .usual (.ok appenderText) (.ok ⟨10, none⟩) :=
      ⟨_, _, rfl, loads_appender.1, comes_appender⟩
    obtain rfl := hending.ok.2 ⟨_, hfound⟩
    obtain rfl := hending.report _ hfound
    exact hconcludes

/-! ### Beyond the limits -/

/-- A program that emits seven, then ten squared thirteen times, and stops. -/
def squarings : Image :=
  [104, 7, 1101, 10, 0, 61] ++ (List.replicate 13 [2, 61, 61, 61]).flatten ++ [4, 61, 99]

theorem loads_squarings :
    Image.Loads (.ok (Image.listed squarings)) squarings ∧
      ¬Image.OverlongFile .usual (.ok (Image.listed squarings)) :=
  Image.loads_listed .usual squarings (by decide) (by decide)

/-- The machine stops, having emitted a value that is not written. -/
theorem squarings_halts :
    ∃ last, (Machine.load squarings [] false).RunsWithin .usual last (.ok .halted) ∧
      ∃ v, last.output.queue = [7, v] ∧ DigitLimit.usual.writes v = false := by
  obtain ⟨r, hr, hrest⟩ := Option.map_eq_some_iff.1 (show
    ((Machine.load squarings [] false).runWithin .usual 20).map
      (fun r => (r.outcome, r.machine.output.queue)) =
      some (.ok (.ok .halted), [7, (Nat.pow 10 8192 : Int)]) by decide +kernel)
  simp only [Prod.mk.injEq] at hrest
  obtain ⟨hout, hqueue⟩ := hrest
  exact ⟨r.machine, ⟨20, r, hr, rfl, hout⟩, _, hqueue, by decide +kernel⟩

/-- From some bound on the command prints what stands in front of that value, and is aborted. -/
theorem squarings_aborts :
    ∃ bound, ∀ fuel, bound ≤ fuel →
      ∃ log, (run {} fuel ["prog.txt"] fun _ => .ok (Image.listed squarings).toUTF8) =
        .aborted (.refused (.write .usual)) "7\n" log := by
  obtain ⟨last, hruns, v, hqueue, hv⟩ := squarings_halts
  have hparts : (Report.parts RunOptions.plain.settings last.output.queue).2 = [7] ++ v :: [] :=
    hqueue
  have hprinted : Report.closed (Report.parts RunOptions.plain.settings last.output.queue).1 ++
      Report.lines [7] = "7\n" := by
    rfl
  have hseven : ∀ w ∈ ([7] : List Int), DigitLimit.usual.writes w = true := by
    intro w hw
    exact DigitLimit.usual.writes_of_lt (k := 1) (by decide) (by revert w; decide)
  obtain ⟨bound, hbound⟩ := RunOptions.exists_abort_of_unwritten rfl loads_squarings.2
    (RunOptions.starts_plain loads_squarings.1) hruns hparts hseven hv
  rw [hprinted] at hbound
  refine ⟨bound, ?_⟩
  intro fuel hle
  obtain ⟨log, hresult⟩ := hbound fuel hle
  exact ⟨log, (RunOptions.run_of_words RunOptions.ofWords?_plain fuel _).trans hresult⟩

/-- A program that squares ten thirteen times, writes at the address that this is, and stops. -/
def farStore : Image :=
  [1101, 10, 0, 59] ++ (List.replicate 13 [2, 59, 59, 59]).flatten ++ [1101, 1, 1, 0, 99]

theorem loads_farStore :
    Image.Loads (.ok (Image.listed farStore)) farStore ∧
      ¬Image.OverlongFile .usual (.ok (Image.listed farStore)) :=
  Image.loads_listed .usual farStore (by decide) (by decide)

/-- Without a limit the machine stops. But it notes how far it extends its memory, and this is not
written: the command is aborted. -/
theorem farStore_aborts :
    (∃ last, (Machine.load farStore [] false).RunsTo last (.ok .halted)) ∧
      ∃ bound, ∀ fuel, bound ≤ fuel →
        ∃ log, (run {} fuel ["prog.txt"] fun _ => .ok (Image.listed farStore).toUTF8) =
          .aborted (.refused (.write .usual)) "" log := by
  constructor
  · obtain ⟨r, hr, hout⟩ := Option.map_eq_some_iff.1 (show
      ((Machine.load farStore [] false).run 20).map (·.outcome) = some (.ok .halted) by
      decide +kernel)
    exact ⟨r.machine, 20, r, hr, rfl, hout⟩
  · obtain ⟨r, hr, hout⟩ := Option.map_eq_some_iff.1 (show
      ((Machine.load farStore [] false).runWithin .usual 20).map (·.outcome) =
        some (.error (.write .usual)) by decide +kernel)
    refine ⟨20, ?_⟩
    intro fuel hle
    obtain ⟨log, hresult⟩ := RunOptions.exists_abort_of_refused rfl loads_farStore.2
      (RunOptions.starts_plain loads_farStore.1) hr hout fuel hle
    exact ⟨log, (RunOptions.run_of_words RunOptions.ofWords?_plain fuel _).trans hresult⟩

/-- Machines of an amplifier that emit such a value end the command without an exit code, too. -/
theorem squarings_amplified_aborts :
    ∃ bound, ∀ fuel, bound ≤ fuel → ∀ code stdout,
      ¬(amplify .usual fuel ["-p", "0", "prog.txt"]
        fun _ => .ok (Image.listed squarings).toUTF8).Exits code stdout := by
  have hwords : AmplifyRequest.ofWords? .usual ["-p", "0", "prog.txt"] =
      some ⟨false, some "0", false, false, 0, "prog.txt"⟩ := rfl
  have horder : AmplifyRequest.order? .usual ⟨false, some "0", false, false, 0, "prog.txt"⟩ =
      some [0] := rfl
  have himage : (Image.load .usual
      (AmplifyRequest.withOrder ⟨false, some "0", false, false, 0, "prog.txt"⟩ [0]).program
      (Except.map String.toUTF8 (.ok (Image.listed squarings)))).outcome = .ok squarings :=
    (Image.load_eq_ok_iff rfl).2 loads_squarings
  obtain ⟨v, hout, hv⟩ : ∃ v, (AmplifyOptions.amplify
      (AmplifyRequest.withOrder ⟨false, some "0", false, false, 0, "prog.txt"⟩ [0]) 20
      squarings).outcome = .ok ⟨v, none⟩ ∧ DigitLimit.usual.writes v = false :=
    ⟨Nat.pow 10 8192, by decide +kernel, by decide +kernel⟩
  refine ⟨20, ?_⟩
  intro fuel hle code stdout hexits
  have hmore := AmplifyOptions.amplify_mono (by rw [hout]; simp) hle
  rw [AmplifyRequest.amplify_of_request hwords horder] at hexits
  have hwork := (AmplifyOptions.execute_of_load himage).trans
    (congrArg (fun work => work.outcome.mapError AmplifyFailure.amplifier) hmore)
  rw [hout] at hwork
  exact AmplifyOptions.not_exits_of_unwritten hwork ⟨v, List.mem_cons_self, hv⟩ hexits

/-- An integer in a file that has too many digits ends both commands without an exit code. -/
theorem not_exits_of_overlong {text : String} (h : Image.OverlongFile .usual (.ok text))
    (fuel code : Nat) (stdout : String) :
    ¬(run {} fuel ["prog.txt"] fun _ => .ok text.toUTF8).Exits code stdout ∧
      ¬(amplify .usual fuel ["prog.txt"] fun _ => .ok text.toUTF8).Exits code stdout := by
  constructor
  · have hfile : Image.OverlongFile (Limits.digits {}) (.ok text) := h
    rw [RunOptions.run_of_words RunOptions.ofWords?_plain]
    change ¬(RunOptions.result _ _ _ (Except.map String.toUTF8 (.ok text))).Exits _ _
    exact RunOptions.not_exits_of_overlong rfl hfile
  · have hwords : AmplifyRequest.ofWords? .usual ["prog.txt"] =
        some ⟨false, none, false, false, 0, "prog.txt"⟩ := rfl
    have horder : AmplifyRequest.order? .usual ⟨false, none, false, false, 0, "prog.txt"⟩ =
        some [0, 1, 2, 3, 4] := rfl
    rw [AmplifyRequest.amplify_of_request hwords horder]
    change ¬(AmplifyOptions.result _ _ _ (Except.map String.toUTF8 (.ok text))).Exits _ _
    exact AmplifyRequest.not_exits_of_overlong rfl h

/-- An integer that has too many digits makes no sense in a cell, nor as a phase. -/
theorem usageError_of_unread {v : Int} (h : DigitLimit.usual.writes v = false) (fuel : Nat)
    (read : FilePath → Except ReadError ByteArray) :
    (run {} fuel ["-p", "9=" ++ v.repr, "prog.txt"] fun _ => .ok "99".toUTF8).Exits 2 "" ∧
      (amplify .usual fuel ["-p", v.repr, "prog.txt"] read).Exits 2 "" := by
  have hunread : Text.Numeral.parse? v.repr .usual = none := by
    rw [Text.Numeral.parse?_repr_within, if_neg (by simp [h])]
  constructor
  · have hwords : RunOptions.ofWords? (Limits.digits {}) ["-p", "9=" ++ v.repr, "prog.txt"] =
        some ⟨false, {}, [], ["9=" ++ v.repr], none, .ofString "prog.txt"⟩ := rfl
    have hload : (Image.load .usual (.ofString "prog.txt") (.ok "99".toUTF8)).outcome =
        .ok [99] := (Image.load_eq_ok_iff rfl).2 RunOptions.loads_stop
    have hcell : Cells.parseCell ("9=" ++ v.repr) .usual =
        .error (.notIntegers ("9=" ++ v.repr)) := by
      simp [Cells.parseCell, hunread]
    have hcells : Cells.parse ["9=" ++ v.repr] .usual = .error (.notIntegers ("9=" ++ v.repr)) := by
      simp [Cells.parse, hcell, bind, Except.bind]
    rw [RunOptions.run_of_words hwords]
    exact RunOptions.exits_of_cells (RunOptions.execute_of_no_cells hload hcells)
  · have hwords : AmplifyRequest.ofWords? .usual ["-p", v.repr, "prog.txt"] =
        some ⟨false, some v.repr, false, false, 0, "prog.txt"⟩ := rfl
    have horder : AmplifyRequest.order? .usual ⟨false, some v.repr, false, false, 0, "prog.txt"⟩ =
        none := by
      have hphases := Phases.parse?_decimals .usual [v]
      simp only [List.all_cons, h, Bool.false_and, Bool.false_eq_true, if_false] at hphases
      exact hphases
    rw [AmplifyRequest.amplify_of_refused hwords horder]
    exact .usageError

/-- A cell far beyond the image ends the command with no exit code of its own, whatever room there
is and although a later cell has a negative address. -/
theorem not_exits_beyond_room (room fuel code : Nat) (stdout : String) :
    ¬(run { room } fuel ["-p", "9223372036854775808=0", "-p", "-1=0", "prog.txt"]
      fun _ => .ok "99".toUTF8).Exits code stdout := by
  have hwords : RunOptions.ofWords? (Limits.digits { room })
      ["-p", "9223372036854775808=0", "-p", "-1=0", "prog.txt"] = some
      ⟨false, {}, [], ["9223372036854775808=0", "-1=0"], none, .ofString "prog.txt"⟩ := rfl
  have hload : (Image.load .usual (.ofString "prog.txt") (.ok "99".toUTF8)).outcome =
      .ok [99] := (Image.load_eq_ok_iff rfl).2 RunOptions.loads_stop
  have hcells : Cells.parse ["9223372036854775808=0", "-1=0"] .usual =
      .ok (Cells.ofPairs [(9223372036854775808, 0), (-1, 0)]) :=
    Cells.parse_eq_ok_iff.2 ⟨_, Cells.mapM_parseCell_eq_ok_iff.1 rfl, rfl⟩
  have hpatch : (Image.patch room [99]
      (Cells.ofPairs [(9223372036854775808, 0), (-1, 0)])).outcome = .error .uncountable := rfl
  rw [RunOptions.run_of_words hwords]
  exact RunOptions.not_exits_of_load (RunOptions.execute_of_unpatchable hload hcells hpatch) rfl

/-- **Beyond the limits the exit codes tell nothing.** With a cell so far away that there can be no
room for it, with a path that no file can have, with an integer in the file that has too many
digits, and with machines that come to rest but emit such an integer, or note one, a command ends
with no exit code of its own. In a cell or among the phases such an integer makes no sense, although
it is one. And whoever asks how a command is used gets to know that, and no more. -/
theorem exit_codes_beyond_limits :
    (List.Forall₂ (Cells.IsCell .usual) ["9223372036854775808=0", "-1=0"]
        [(9223372036854775808, 0), (-1, 0)] ∧
      ∀ room fuel code stdout,
        ¬(run { room } fuel ["-p", "9223372036854775808=0", "-p", "-1=0", "prog.txt"]
          fun _ => .ok "99".toUTF8).Exits code stdout) ∧
    (∀ fuel code stdout, ¬(run {} fuel ["a\x00b"] fun _ => .error .notFound).Exits code stdout) ∧
    (Image.Loads (.ok DigitLimit.usual.least.repr) [DigitLimit.usual.least] ∧
      ∀ fuel code stdout,
        ¬(run {} fuel ["prog.txt"]
          fun _ => .ok DigitLimit.usual.least.repr.toUTF8).Exits code stdout ∧
        ¬(amplify .usual fuel ["prog.txt"]
          fun _ => .ok DigitLimit.usual.least.repr.toUTF8).Exits code stdout) ∧
    (Image.Loads (.ok (Image.listed squarings)) squarings ∧
      (∃ last, (Machine.load squarings [] false).RunsTo last (.ok .halted)) ∧
      (∃ bound, ∀ fuel, bound ≤ fuel →
        ∃ log, (run {} fuel ["prog.txt"] fun _ => .ok (Image.listed squarings).toUTF8) =
          .aborted (.refused (.write .usual)) "7\n" log) ∧
      ∃ bound, ∀ fuel, bound ≤ fuel → ∀ code stdout,
        ¬(amplify .usual fuel ["-p", "0", "prog.txt"]
          fun _ => .ok (Image.listed squarings).toUTF8).Exits code stdout) ∧
    (Image.Loads (.ok (Image.listed farStore)) farStore ∧
      (∃ last, (Machine.load farStore [] false).RunsTo last (.ok .halted)) ∧
      ∃ bound, ∀ fuel, bound ≤ fuel →
        ∃ log, (run {} fuel ["prog.txt"] fun _ => .ok (Image.listed farStore).toUTF8) =
          .aborted (.refused (.write .usual)) "" log) ∧
    (Text.Numeral.parse? DigitLimit.usual.least.repr = some DigitLimit.usual.least ∧
      ∀ fuel,
        (run {} fuel ["-p", "9=" ++ DigitLimit.usual.least.repr, "prog.txt"]
          fun _ => .ok "99".toUTF8).Exits 2 "" ∧
        (amplify .usual fuel ["-p", DigitLimit.usual.least.repr, "prog.txt"]
          fun _ => .ok "99".toUTF8).Exits 2 "") ∧
    ∀ fuel, (run {} fuel ["--help", "prog.txt"] fun _ => .error .notFound) = .help := by
  have hleast : DigitLimit.usual.writes DigitLimit.usual.least = false :=
    DigitLimit.not_writes_least (by decide)
  obtain ⟨last, hruns, -⟩ := squarings_halts
  refine ⟨⟨Cells.mapM_parseCell_eq_ok_iff.1 rfl, not_exits_beyond_room⟩, ?_,
    ⟨Image.loads_decimal _, not_exits_of_overlong ((Image.overlongFile_decimal_iff _).2 hleast)⟩,
    ⟨loads_squarings.1, ⟨last, hruns.runsTo⟩, squarings_aborts, squarings_amplified_aborts⟩,
    ⟨loads_farStore.1, farStore_aborts⟩,
    ⟨Text.Numeral.parse?_repr _, fun fuel => usageError_of_unread hleast fuel _⟩, fun _ => rfl⟩
  intro fuel code stdout h
  cases h

end CellMachine.Command
