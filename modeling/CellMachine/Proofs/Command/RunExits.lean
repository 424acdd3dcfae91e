import CellMachine.Proofs.Command.Ending
import CellMachine.Proofs.Machine.Emission

/-!
# CellMachine.Proofs.Command.RunExits

**How the command that runs a program ends.** `RunOptions.Ending` says, without a look at how the
command finds out, what each exit code stands for: what the file holds, how the cells are written,
and how the machine comes to rest. One lemma for each way to end shows that it excludes the others,
and the command ends in one of them (`exists_ending`).

Runs are those without a digit limit here (`Machine.RunsTo`). The limit counts for the cells, which
are read under it, and for the command, which has to write all that there is to tell: that the
machine is not refused anything (`Machine.RunsWithin`) and that what it comes to is `Written` are
assumptions. Where they fail, the command is aborted (`exists_abort_of_refused`,
`exists_abort_of_unwritten`).
-/

namespace CellMachine.Command.RunOptions

variable {limits : Limits} {o : RunOptions} {file : Except ReadError String} {code : Nat}
variable {stdout : String}
variable {m last : Machine} {outcome : Except Fault Status} {image : Image}
variable {pairs : List (Int × Int)}

/-! ### The ways to end -/

/-- The machine that the command runs: the image that the file holds, its cells overwritten, is
loaded into it, and all input waits. -/
def Starts (o : RunOptions) (limits : Limits) (file : Except ReadError String) (m : Machine) :
    Prop :=
  ∃ image pairs patched, Image.Loads file image ∧
    List.Forall₂ (Cells.IsCell limits.digits) o.cells pairs ∧
    (Image.patch limits.room image (Cells.ofPairs pairs)).outcome = .ok patched ∧
    m = .load patched o.feed o.settings.trace

/-- The machine that the command runs comes to rest like this. -/
def Rests (o : RunOptions) (limits : Limits) (file : Except ReadError String)
    (outcome : Except Fault Status) : Prop :=
  ∃ m last, o.Starts limits file m ∧ m.RunsTo last outcome

/-- There is room for the cells, if it comes to overwriting them. -/
def HasRoom (o : RunOptions) (limits : Limits) (file : Except ReadError String) : Prop :=
  ∀ image pairs, Image.Loads file image →
    List.Forall₂ (Cells.IsCell limits.digits) o.cells pairs →
    Image.HasRoom limits.room image (Cells.ofPairs pairs)

/-- What there is to tell of a machine that came to rest like this is written: its fault, or else
the values that are printed as integers and the place where it waits. -/
def Written (o : RunOptions) (limit : DigitLimit) (last : Machine) : Except Fault Status → Prop
  | .error fault => ∀ i ∈ fault.integers, limit.writes i = true
  | .ok status =>
    (∀ v ∈ (Report.parts o.settings last.output.queue).2, limit.writes v = true) ∧
      (status = .suspended → limit.writes last.ip = true)

/-- The exit code and the output, by what becomes of the file, the cells and the machine. -/
structure Ending (o : RunOptions) (limits : Limits) (file : Except ReadError String) (code : Nat)
    (stdout : String) : Prop where
  /-- There are five codes. -/
  mem : code ∈ [0, 1, 2, 4, 100]
  /-- The file holds no program, or a cell has a negative address. -/
  loadError : code = 4 ↔ (∀ image, ¬Image.Loads file image) ∨
    ∃ pairs, List.Forall₂ (Cells.IsCell limits.digits) o.cells pairs ∧ ∃ pair ∈ pairs, pair.1 < 0
  /-- The file holds a program, but a cell makes no sense. -/
  usageError : code = 2 ↔ (∃ image, Image.Loads file image) ∧
    ∃ cell ∈ o.cells, ∀ pair, ¬Cells.IsCell limits.digits cell pair
  /-- The machine faults. -/
  fault : code = 100 ↔ ∃ fault, o.Rests limits file (.error fault)
  /-- The machine waits for more input. -/
  suspended : code = 1 ↔ o.Rests limits file (.ok .suspended)
  /-- The machine stops. -/
  halted : code = 0 ↔ o.Rests limits file (.ok .halted)
  /-- Nothing is printed then. -/
  silent : code ∈ [2, 4, 100] → stdout = ""
  /-- Otherwise every value that the machine emitted is printed, in order. -/
  report : ∀ m last status, o.Starts limits file m → m.RunsTo last (.ok status) →
    ∃ values, m.awake.Emits values ∧ stdout = Report.render o.settings values

theorem Starts.unique {m' : Machine} (h : o.Starts limits file m)
    (h' : o.Starts limits file m') : m = m' := by
  obtain ⟨image, pairs, patched, hload, hcells, hpatch, rfl⟩ := h
  obtain ⟨image', pairs', patched', hload', hcells', hpatch', rfl⟩ := h'
  obtain rfl := hload.unique hload'
  obtain rfl := Cells.cells_unique hcells hcells'
  obtain rfl := Except.ok.inj (hpatch.symm.trans hpatch')
  rfl

/-- A machine starts only if nothing else ends the command. -/
theorem Starts.sound (h : o.Starts limits file m) :
    (∃ image, Image.Loads file image) ∧
      (∀ cell ∈ o.cells, ∃ pair, Cells.IsCell limits.digits cell pair) ∧
      ∀ pairs, List.Forall₂ (Cells.IsCell limits.digits) o.cells pairs →
        ∀ pair ∈ pairs, 0 ≤ pair.1 := by
  obtain ⟨image, pairs, patched, hload, hcells, hpatch, -⟩ := h
  refine ⟨⟨image, hload⟩, Cells.exists_cells_iff.1 ⟨pairs, hcells⟩, ?_⟩
  intro pairs' hcells' pair hpair
  obtain rfl := Cells.cells_unique hcells hcells'
  by_contra hlt
  obtain ⟨cell, hcell, hneg⟩ :=
    (Cells.exists_ofPairs_iff (· < 0)).2 ⟨pair, hpair, Int.not_le.1 hlt⟩
  exact absurd (Image.nonneg_of_patch hpatch cell hcell) (Int.not_le.2 hneg)

/-- Where no machine starts, the file and the cells decide. -/
theorem ending_of_no_machine (hno : ∀ m, ¬o.Starts limits file m) (hmem : code = 2 ∨ code = 4)
    (hload : code = 4 ↔ (∀ image, ¬Image.Loads file image) ∨
      ∃ pairs, List.Forall₂ (Cells.IsCell limits.digits) o.cells pairs ∧ ∃ pair ∈ pairs, pair.1 < 0)
    (husage : code = 2 ↔ (∃ image, Image.Loads file image) ∧
      ∃ cell ∈ o.cells, ∀ pair, ¬Cells.IsCell limits.digits cell pair) :
    o.Ending limits file code "" := by
  have hrests : ∀ outcome, ¬o.Rests limits file outcome := by
    intro outcome h
    obtain ⟨m, -, hm, -⟩ := h
    exact hno m hm
  exact {
    mem := by rcases hmem with rfl | rfl <;> decide
    loadError := hload
    usageError := husage
    fault := iff_of_false (by omega) fun h => hrests _ h.choose_spec
    suspended := iff_of_false (by omega) (hrests _)
    halted := iff_of_false (by omega) (hrests _)
    silent := fun _ => rfl
    report := fun m _ _ hm => absurd hm (hno m) }

theorem ending_of_unloadable (h : ∀ image, ¬Image.Loads file image) :
    o.Ending limits file 4 "" := by
  refine ending_of_no_machine ?_ (.inr rfl) (iff_of_true rfl (.inl h)) (by simp [h])
  intro m hm
  obtain ⟨image, hload⟩ := hm.sound.1
  exact h image hload

theorem ending_of_bad_cell (hload : Image.Loads file image)
    (hcell : ∃ cell ∈ o.cells, ∀ pair, ¬Cells.IsCell limits.digits cell pair) :
    o.Ending limits file 2 "" := by
  have hnot : ¬∃ pairs, List.Forall₂ (Cells.IsCell limits.digits) o.cells pairs := by
    intro hpairs
    obtain ⟨cell, hmem, hbad⟩ := hcell
    obtain ⟨pair, hpair⟩ := Cells.exists_cells_iff.1 hpairs cell hmem
    exact hbad pair hpair
  refine ending_of_no_machine ?_ (.inl rfl) ?_ (iff_of_true rfl ⟨⟨image, hload⟩, hcell⟩)
  · intro m hm
    exact hnot (Cells.exists_cells_iff.2 hm.sound.2.1)
  · refine iff_of_false (by decide) ?_
    intro h
    rcases h with hnone | ⟨pairs, hpairs, -⟩
    · exact hnone image hload
    · exact hnot ⟨pairs, hpairs⟩

theorem ending_of_negative (hcells : List.Forall₂ (Cells.IsCell limits.digits) o.cells pairs)
    (hneg : ∃ pair ∈ pairs, pair.1 < 0) : o.Ending limits file 4 "" := by
  refine ending_of_no_machine ?_ (.inr rfl) (iff_of_true rfl (.inr ⟨pairs, hcells, hneg⟩)) ?_
  · intro m hm
    obtain ⟨pair, hmem, hlt⟩ := hneg
    exact absurd (hm.sound.2.2 pairs hcells pair hmem) (by omega)
  · refine iff_of_false (by decide) ?_
    intro h
    obtain ⟨-, cell, hmem, hbad⟩ := h
    obtain ⟨pair, hpair⟩ := Cells.exists_cells_iff.1 ⟨pairs, hcells⟩ cell hmem
    exact hbad pair hpair

/-- The code of a machine that came to rest. -/
def restCode : Except Fault Status → Nat
  | .ok .suspended => 1
  | .ok _ => 0
  | .error _ => 100

/-- The code tells how the machine came to rest. -/
theorem restCode_of_runsTo (h : m.RunsTo last outcome) (hm : m.status ≠ .faulted) :
    restCode outcome ∈ [0, 1, 100] ∧ (restCode outcome = 0 ↔ outcome = .ok .halted) ∧
      (restCode outcome = 1 ↔ outcome = .ok .suspended) ∧
      (restCode outcome = 100 ↔ ∃ fault, outcome = .error fault) := by
  rcases h.status hm with ⟨rfl, -⟩ | ⟨rfl, -⟩ | ⟨fault, rfl, -⟩ <;> simp [restCode]

/-- What is printed when a machine came to rest. -/
def restOutput (settings : Settings) (last : Machine) : Except Fault Status → String
  | .ok _ => Report.render settings last.output.queue
  | .error _ => ""

/-- Where a machine starts, its run decides. -/
theorem ending_of_run (hstarts : o.Starts limits file m) (hruns : m.RunsTo last outcome) :
    o.Ending limits file (restCode outcome) (restOutput o.settings last outcome) := by
  obtain ⟨⟨image, hload⟩, hcells, hnonneg⟩ := hstarts.sound
  have hfresh : m.status = .fresh ∧ m.output.queue = [] := by
    obtain ⟨image, pairs, patched, -, -, -, rfl⟩ := hstarts
    exact ⟨rfl, rfl⟩
  obtain ⟨hmem, hhalted, hsuspended, hfault⟩ := restCode_of_runsTo hruns (by simp [hfresh.1])
  have hcode : restCode outcome = 0 ∨ restCode outcome = 1 ∨ restCode outcome = 100 := by
    simpa using hmem
  -- no other machine starts, and this one comes to rest in no other way
  have hwhole : ∀ {m' last' : Machine} {outcome' : Except Fault Status}, o.Starts limits file m' →
      m'.RunsTo last' outcome' → m' = m ∧ last' = last ∧ outcome' = outcome := by
    intro m' last' outcome' hm' hruns'
    obtain rfl := hm'.unique hstarts
    exact ⟨rfl, hruns'.unique hruns⟩
  have hrests : ∀ outcome', o.Rests limits file outcome' ↔ outcome = outcome' := by
    intro outcome'
    constructor
    · intro h
      obtain ⟨m', last', hm', hruns'⟩ := h
      exact (hwhole hm' hruns').2.2.symm
    · intro h
      exact ⟨m, last, hstarts, h ▸ hruns⟩
  exact {
    mem := by
      simp only [List.mem_cons, List.not_mem_nil, or_false]
      omega
    loadError := by
      refine iff_of_false (by omega) ?_
      intro h
      rcases h with hnone | ⟨pairs, hpairs, pair, hpair, hneg⟩
      · exact hnone image hload
      · exact absurd (hnonneg pairs hpairs pair hpair) (Int.not_le.2 hneg)
    usageError := by
      refine iff_of_false (by omega) ?_
      intro h
      obtain ⟨-, cell, hcell, hbad⟩ := h
      obtain ⟨pair, hpair⟩ := hcells cell hcell
      exact hbad pair hpair
    fault := by simp only [hrests, hfault]
    suspended := by simp only [hrests, hsuspended]
    halted := by simp only [hrests, hhalted]
    silent := by
      intro h
      have h100 : restCode outcome = 100 := by
        simp only [List.mem_cons, List.not_mem_nil, or_false] at h
        omega
      obtain ⟨fault, rfl⟩ := hfault.1 h100
      rfl
    report := by
      intro m' last' status hm' hruns'
      obtain ⟨rfl, rfl, rfl⟩ := hwhole hm' hruns'
      obtain ⟨values, hvalues, hqueue⟩ := hruns.emits (by simp [Machine.Live, hfresh.1]) hfresh.2
      exact ⟨values, hvalues, by rw [restOutput, hqueue]⟩ }

/-! ### The command -/

/-- The command does what its words ask for. -/
theorem run_of_words {words : List String} (h : ofWords? limits.digits words = some o) (fuel : Nat)
    (read : FilePath → Except ReadError ByteArray) :
    run limits fuel words read = o.result limits fuel (read o.program) := by
  obtain ⟨items, hread, h⟩ := Option.bind_eq_some_iff.1 h
  rw [Option.ite_none_left_eq_some, Bool.not_eq_true] at h
  simp only [run, hread, h.1, h.2]
  exact if_neg Bool.false_ne_true

/-- With a machine to run the work comes to what its run comes to. -/
theorem execute_of_starts {fuel : Nat} {r : Limited (Except Fault Status)}
    (hnul : o.program.hasNul = false) (hshort : ¬Image.OverlongFile limits.digits file)
    (hstarts : o.Starts limits file m) (hr : m.runWithin limits.digits fuel = some r) :
    (o.execute limits fuel (file.map String.toUTF8)).outcome = runOutcome r := by
  obtain ⟨image, pairs, patched, hload, hcells, hpatch, rfl⟩ := hstarts
  have himage := (Image.load_eq_ok_iff hnul).2 ⟨hload, hshort⟩
  have hparse := Cells.parse_eq_ok_iff.2 ⟨pairs, hcells, rfl⟩
  rw [execute_of_patched himage hparse hpatch]
  simp only [runImage, hr]

theorem runOutcome_of_ok {r : Limited (Except Fault Status)} (h : r.outcome = .ok outcome) :
    runOutcome r = (outcome.map fun _ => r.machine).mapError .fault := by
  rw [runOutcome, h]
  cases outcome <;> rfl

/-- The work of the command, run to the end, lets it exit with the code of the run, if what there is
to tell is written. -/
theorem exits_of_rest {fuel : Nat} {content : Except ReadError ByteArray}
    (hruns : m.RunsTo last outcome) (hm : m.status ≠ .faulted)
    (hwritten : o.Written limits.digits last outcome)
    (h : (o.execute limits fuel content).outcome = (outcome.map fun _ => last).mapError .fault) :
    (o.result limits fuel content).Exits (restCode outcome)
      (restOutput o.settings last outcome) := by
  rcases hruns.status hm with ⟨rfl, hlast⟩ | ⟨rfl, hlast⟩ | ⟨fault, rfl, -⟩
  · have hexits := exits_of_machine h hwritten.1 (by simp [hlast])
    rwa [hlast, if_neg (by decide)] at hexits
  · have hexits := exits_of_machine h hwritten.1 fun _ => hwritten.2 rfl
    rwa [hlast, if_pos rfl] at hexits
  · exact exits_of_fault h hwritten

/-- If its machine comes to rest and what there is to tell is written, the command exits with the
code of the run. -/
theorem concludes_of_run (hnul : o.program.hasNul = false)
    (hshort : ¬Image.OverlongFile limits.digits file) (hstarts : o.Starts limits file m)
    (hruns : m.RunsWithin limits.digits last outcome)
    (hwritten : o.Written limits.digits last outcome) :
    Concludes (fun fuel => o.result limits fuel (file.map String.toUTF8)) (restCode outcome)
      (restOutput o.settings last outcome) := by
  have hm : m.status ≠ .faulted := by
    obtain ⟨image, pairs, patched, -, -, -, rfl⟩ := hstarts
    simp [Machine.load]
  have hends := hruns.runsTo
  obtain ⟨bound, r, hr, rfl, hout⟩ := hruns
  refine ⟨bound, ?_⟩
  intro fuel hle
  refine exits_of_rest hends hm hwritten ?_
  rw [execute_of_starts hnul hshort hstarts (Machine.runWithin_mono hr hle), runOutcome_of_ok hout]

/-- A file without a program lets the command exit, whatever its options. -/
theorem exits_of_unloadable {fuel : Nat} (hnul : o.program.hasNul = false)
    (hshort : ¬Image.OverlongFile limits.digits file) (h : ∀ image, ¬Image.Loads file image) :
    (o.result limits fuel (file.map String.toUTF8)).Exits 4 "" := by
  cases himage : (Image.load limits.digits o.program (file.map String.toUTF8)).outcome with
  | ok image => exact absurd ((Image.load_eq_ok_iff hnul).1 himage).1 (h image)
  | error reason =>
      exact exits_of_load (execute_of_unloadable himage)
        (Image.isReported_of_load hnul hshort himage) (by simp [Image.integers_of_load himage])

/-- An integer in the file that has too many digits ends the command without an exit code. -/
theorem not_exits_of_overlong {fuel : Nat} (hnul : o.program.hasNul = false)
    (h : Image.OverlongFile limits.digits file) :
    ¬(o.result limits fuel (file.map String.toUTF8)).Exits code stdout := by
  obtain ⟨refusal, hload⟩ := Image.load_of_overlong hnul h
  exact not_exits_of_load (execute_of_unloadable hload) rfl

/-- If its machine comes to rest and all there is to tell is written, the command concludes, and in
one of the ways described. -/
theorem exists_ending (hnul : o.program.hasNul = false)
    (hshort : ¬Image.OverlongFile limits.digits file) (hroom : o.HasRoom limits file)
    (hrests : ∀ m, o.Starts limits file m → ∃ last outcome,
      m.RunsWithin limits.digits last outcome ∧ o.Written limits.digits last outcome) :
    ∃ code stdout,
      Concludes (fun fuel => o.result limits fuel (file.map String.toUTF8)) code stdout ∧
        o.Ending limits file code stdout := by
  by_cases hload : ∃ image, Image.Loads file image
  · obtain ⟨image, hload⟩ := hload
    have himage := (Image.load_eq_ok_iff hnul).2 ⟨hload, hshort⟩
    by_cases hcells : ∃ pairs, List.Forall₂ (Cells.IsCell limits.digits) o.cells pairs
    · obtain ⟨pairs, hcells⟩ := hcells
      have hparse := Cells.parse_eq_ok_iff.2 ⟨pairs, hcells, rfl⟩
      have hfits := hroom image pairs hload hcells
      by_cases hneg : ∃ pair ∈ pairs, pair.1 < 0
      · obtain ⟨cell, hmem, hpatch⟩ :=
          Image.exists_negativePatch ((Cells.exists_ofPairs_iff (· < 0)).2 hneg) hfits
        have hwrites := Cells.writes_of_cells hcells cell (Cells.subset_of_ofPairs pairs hmem)
        refine ⟨4, "", ⟨0, ?_⟩, ending_of_negative hcells hneg⟩
        intro fuel _
        exact exits_of_load (execute_of_unpatchable himage hparse hpatch) rfl
          (by simp [LoadError.integers, hwrites.1])
      · have hnonneg : ∀ cell ∈ Cells.ofPairs pairs, 0 ≤ cell.1 := by
          intro cell hcell
          by_contra hlt
          exact hneg ((Cells.exists_ofPairs_iff (· < 0)).1 ⟨cell, hcell, Int.not_le.1 hlt⟩)
        obtain ⟨patched, hpatch⟩ := Image.exists_patch hnonneg hfits
        have hstarts : o.Starts limits file (.load patched o.feed o.settings.trace) :=
          ⟨image, pairs, patched, hload, hcells, hpatch, rfl⟩
        obtain ⟨last, outcome, hruns, hwritten⟩ := hrests _ hstarts
        exact ⟨_, _, concludes_of_run hnul hshort hstarts hruns hwritten,
          ending_of_run hstarts hruns.runsTo⟩
    · have hbad : ∃ cell ∈ o.cells, ∀ pair, ¬Cells.IsCell limits.digits cell pair := by
        simpa [Cells.exists_cells_iff] using hcells
      refine ⟨2, "", ⟨0, ?_⟩, ending_of_bad_cell hload hbad⟩
      intro fuel _
      cases hparse : Cells.parse o.cells limits.digits with
      | ok map =>
          obtain ⟨pairs, hpairs, -⟩ := Cells.parse_eq_ok_iff.1 hparse
          exact absurd ⟨pairs, hpairs⟩ hcells
      | error error => exact exits_of_cells (execute_of_no_cells himage hparse)
  · have hnone : ∀ image, ¬Image.Loads file image := fun image h => hload ⟨image, h⟩
    exact ⟨4, "", ⟨0, fun fuel _ => exits_of_unloadable hnul hshort hnone⟩,
      ending_of_unloadable hnone⟩

/-! ### What is not written -/

/-- If its machine is refused, the command is aborted, and nothing is printed. -/
theorem exists_abort_of_refused {refusal : DigitLimit.Refusal} {bound : Nat}
    {r : Limited (Except Fault Status)} (hnul : o.program.hasNul = false)
    (hshort : ¬Image.OverlongFile limits.digits file) (hstarts : o.Starts limits file m)
    (hr : m.runWithin limits.digits bound = some r) (hout : r.outcome = .error refusal) :
    ∀ fuel, bound ≤ fuel → ∃ log, o.result limits fuel (file.map String.toUTF8) =
      .aborted (.refused refusal) "" log := by
  intro fuel hle
  have hwork := execute_of_starts hnul hshort hstarts (Machine.runWithin_mono hr hle)
  rw [runOutcome, hout] at hwork
  exact ⟨_, result_of_refused hwork⟩

/-- If its machine comes to rest without a fault, a value that is not written aborts the command.
What is printed is what stands in front of it. -/
theorem exists_abort_of_unwritten {status : Status} {front back : List Int} {v : Int}
    (hnul : o.program.hasNul = false) (hshort : ¬Image.OverlongFile limits.digits file)
    (hstarts : o.Starts limits file m) (hruns : m.RunsWithin limits.digits last (.ok status))
    (hparts : (Report.parts o.settings last.output.queue).2 = front ++ v :: back)
    (hfront : ∀ w ∈ front, limits.digits.writes w = true) (hv : limits.digits.writes v = false) :
    ∃ bound, ∀ fuel, bound ≤ fuel → ∃ log, o.result limits fuel (file.map String.toUTF8) =
      .aborted (.refused (.write limits.digits))
        (Report.closed (Report.parts o.settings last.output.queue).1 ++ Report.lines front)
        log := by
  obtain ⟨bound, r, hr, rfl, hout⟩ := hruns
  refine ⟨bound, ?_⟩
  intro fuel hle
  have hwork := execute_of_starts hnul hshort hstarts (Machine.runWithin_mono hr hle)
  rw [runOutcome_of_ok hout] at hwork
  exact ⟨_, aborts_of_machine hwork hparts hfront hv⟩

/-! ### Nothing but a program file -/

/-- The options of a command that is given a program file and nothing else. -/
def plain : RunOptions := ⟨false, {}, [], [], none, .ofString "prog.txt"⟩

theorem ofWords?_plain : ofWords? (Limits.digits {}) ["prog.txt"] = some plain := rfl

/-- It starts a machine with the image as it is, and no input. -/
theorem starts_plain {text : String} {image : Image} (h : Image.Loads (.ok text) image) :
    plain.Starts {} (.ok text) (.load image [] false) :=
  ⟨image, [], image, h, .nil, rfl, rfl⟩

/-- A program that stops at once. -/
theorem loads_stop : Image.Loads (.ok "99") [99] ∧ ¬Image.OverlongFile .usual (.ok "99") :=
  Image.loads_listed .usual [99] (by decide) (by decide)

end CellMachine.Command.RunOptions
