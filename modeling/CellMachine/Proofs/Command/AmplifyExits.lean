import CellMachine.Proofs.Amplifier.Search
import CellMachine.Proofs.Command.Ending
import CellMachine.Proofs.Command.Request

/-!
# CellMachine.Proofs.Command.AmplifyExits

**How the command that runs an amplifier ends.** `AmplifyRequest.Ending` says what each exit code
stands for: how the phases are written, what the file holds, and what the amplifier comes to. One
lemma for each way to end shows that it excludes the others, and the command ends in one of them
(`exists_ending`).

What an amplifier comes to does not depend on the digit limit. The limit counts for the phases and
the seed, which are read under it, and for the command, which has to write all that its machines
note and all that there is to tell (`AmplifyOptions.Written`).
-/

namespace CellMachine.Command

open Amplifier (Failure)

variable {limit : DigitLimit} {file : Except ReadError String} {code : Nat} {stdout : String}

/-! ### What an amplifier comes to -/

/-- With these options an image comes to this: what is found, or why nothing is. -/
def AmplifyOptions.Comes (o : AmplifyOptions) (image : Image) (outcome : Except Failure Found) :
    Prop :=
  if o.search then
    ∃ best, o.wiring.Finds image o.seed o.phases best ∧
      outcome = best.map fun best => { signal := best.1, order := some best.2 }
  else
    ∃ signal, o.wiring.Gives image o.seed o.phases signal ∧
      outcome = signal.map fun signal => { signal, order := none }

/-- The integers in what there is to tell of an amplifier that came to this. -/
def toldIntegers : Except Failure Found → List Int
  | .ok found => found.integers
  | .error (.fault fault) => fault.integers
  | .error (.error error) => error.integers
  | .error .unfinished => []

/-- All that the machines note is written, and so is what there is to tell of what they came to. -/
def AmplifyOptions.Written (o : AmplifyOptions) (limit : DigitLimit) (image : Image)
    (outcome : Except Failure Found) : Prop :=
  (∃ bound, ∀ fuel, bound ≤ fuel → ∀ e ∈ (o.amplify fuel image).log, limit.notes e = true) ∧
    ∀ i ∈ toldIntegers outcome, limit.writes i = true

theorem AmplifyOptions.Comes.settles {o : AmplifyOptions} {image : Image}
    {outcome : Except Failure Found} (h : o.Comes image outcome) :
    Amplifier.Settles (fun fuel => o.amplify fuel image) outcome := by
  unfold AmplifyOptions.Comes at h
  split at h
  · rename_i hsearch
    obtain ⟨found, hfound, rfl⟩ := h
    refine hfound.map fun fuel => ?_
    rw [AmplifyOptions.amplify, if_pos hsearch, Logged.outcome_bind]
    rfl
  · rename_i hsearch
    obtain ⟨found, hfound, rfl⟩ := h
    refine hfound.map fun fuel => ?_
    rw [AmplifyOptions.amplify, if_neg hsearch, Logged.outcome_bind]
    rfl

/-- What an amplifier comes to within a bound it comes to within every larger one. -/
theorem AmplifyOptions.amplify_mono {o : AmplifyOptions} {image : Image} {fuel fuel' : Nat}
    (h : (o.amplify fuel image).outcome ≠ .error .unfinished) (hle : fuel ≤ fuel') :
    o.amplify fuel' image = o.amplify fuel image := by
  unfold AmplifyOptions.amplify at h ⊢
  split at h
  · rename_i hsearch
    rw [if_pos hsearch, if_pos hsearch]
    exact Amplifier.bind_mono h (fun hbest => Amplifier.bestOrder_mono hbest hle) fun _ _ => rfl
  · rename_i hsearch
    rw [if_neg hsearch, if_neg hsearch]
    exact Amplifier.bind_mono h (fun hsignal => Amplifier.signal_mono hsignal hle) fun _ _ => rfl

/-- What the machines note is written if it is within a bound that suffices. -/
theorem AmplifyOptions.written_of_amplify {o : AmplifyOptions} {image : Image}
    {outcome : Except Failure Found} (bound : Nat)
    (hend : (o.amplify bound image).outcome ≠ .error .unfinished)
    (hnotes : ∀ e ∈ (o.amplify bound image).log, limit.notes e = true)
    (htold : ∀ i ∈ toldIntegers outcome, limit.writes i = true) :
    o.Written limit image outcome := by
  refine ⟨⟨bound, ?_⟩, htold⟩
  intro fuel hle
  rwa [o.amplify_mono hend hle]

namespace AmplifyRequest

variable {r : AmplifyRequest} {outcome outcome' : Except Failure Found}

/-- The text of the phases holds something between its commas that is no integer. -/
def Refused (r : AmplifyRequest) (limit : DigitLimit) : Prop :=
  ∃ text field, r.phases = some text ∧ field ∈ Text.fields ',' text.toList ∧
    Phases.isFilled field = true ∧ Text.Numeral.parse? (.ofList field) limit = none

/-- With the phases requested and the image that the file holds it comes to this. -/
def Comes (r : AmplifyRequest) (limit : DigitLimit) (file : Except ReadError String)
    (outcome : Except Failure Found) : Prop :=
  ∃ order image, r.order? limit = some order ∧ Image.Loads file image ∧
    (r.withOrder order).Comes image outcome

/-- The exit code and the output, by what becomes of the phases, the file and the amplifier. -/
structure Ending (r : AmplifyRequest) (limit : DigitLimit) (file : Except ReadError String)
    (code : Nat) (stdout : String) : Prop where
  /-- There are five codes. -/
  mem : code ∈ [0, 2, 4, 5, 100]
  /-- The phases make no sense, whatever the file is. -/
  usageError : code = 2 ↔ r.Refused limit
  /-- The phases make sense, but the file holds no program. -/
  loadError : code = 4 ↔ ¬r.Refused limit ∧ ∀ image, ¬Image.Loads file image
  /-- The machines come to rest without a signal. -/
  pipelineError : code = 5 ↔ ∃ error, r.Comes limit file (.error (.error error))
  /-- A machine faults. -/
  fault : code = 100 ↔ ∃ fault, r.Comes limit file (.error (.fault fault))
  /-- Something is found. -/
  ok : code = 0 ↔ ∃ found, r.Comes limit file (.ok found)
  /-- Nothing is printed otherwise. -/
  silent : code ≠ 0 → stdout = ""
  /-- What is found is printed. -/
  report : ∀ found, r.Comes limit file (.ok found) → stdout = found.text

/-- Phases are refused if one of the fields that are filled is no integer. -/
theorem order?_eq_none_iff : r.order? limit = none ↔ r.Refused limit := by
  have hnone : ∀ L : List (List Char),
      (L.mapM fun field => Text.Numeral.parse? (.ofList field) limit) = none ↔
        ∃ field ∈ L, Text.Numeral.parse? (.ofList field) limit = none := by
    intro L
    induction L with
    | nil => simp
    | cons field L ih =>
        cases hfield : Text.Numeral.parse? (.ofList field) limit with
        | none => simp [hfield]
        | some v =>
            rw [Option.eq_none_iff_forall_ne_some] at ih
            simpa [hfield] using ih
  cases hphases : r.phases with
  | none => simp [order?, Refused, hphases]
  | some text => simp [order?, Refused, hphases, Phases.parse?, hnone, and_assoc]

theorem not_refused_of_order? {order : List Int} (h : r.order? limit = some order) :
    ¬r.Refused limit := by
  intro hrefused
  rw [order?_eq_none_iff.2 hrefused] at h
  cases h

theorem Comes.unique (h : r.Comes limit file outcome) (h' : r.Comes limit file outcome') :
    outcome = outcome' := by
  obtain ⟨order, image, horder, hload, hcomes⟩ := h
  obtain ⟨order', image', horder', hload', hcomes'⟩ := h'
  obtain rfl := Option.some.inj (horder.symm.trans horder')
  obtain rfl := hload.unique hload'
  exact hcomes.settles.unique hcomes'.settles

/-- Where no amplifier is run, the phases and the file decide. -/
theorem ending_of_no_run (hno : ∀ outcome, ¬r.Comes limit file outcome) (hmem : code = 2 ∨ code = 4)
    (husage : code = 2 ↔ r.Refused limit)
    (hload : code = 4 ↔ ¬r.Refused limit ∧ ∀ image, ¬Image.Loads file image) :
    r.Ending limit file code "" where
  mem := by rcases hmem with rfl | rfl <;> decide
  usageError := husage
  loadError := hload
  pipelineError := iff_of_false (by omega) fun h => hno _ h.choose_spec
  fault := iff_of_false (by omega) fun h => hno _ h.choose_spec
  ok := iff_of_false (by omega) fun h => hno _ h.choose_spec
  silent := fun _ => rfl
  report := fun _ hcomes => absurd hcomes (hno _)

theorem ending_of_refused (h : r.Refused limit) : r.Ending limit file 2 "" := by
  refine ending_of_no_run ?_ (.inl rfl) (iff_of_true rfl h) (by simp [h])
  intro outcome hcomes
  obtain ⟨order, -, horder, -⟩ := hcomes
  exact not_refused_of_order? horder h

theorem ending_of_unloadable (hphases : ¬r.Refused limit) (h : ∀ image, ¬Image.Loads file image) :
    r.Ending limit file 4 "" := by
  refine ending_of_no_run ?_ (.inr rfl) (by simp [hphases]) (iff_of_true rfl ⟨hphases, h⟩)
  intro outcome hcomes
  obtain ⟨-, image, -, hload, -⟩ := hcomes
  exact h image hload

/-- The code of what an amplifier came to, if it came to an end. -/
def signalCode : Except Failure Found → Nat
  | .ok _ => 0
  | .error (.fault _) => 100
  | .error _ => 5

/-- The code tells what an amplifier came to. -/
theorem signalCode_of_ne (h : outcome ≠ .error .unfinished) :
    signalCode outcome ∈ [0, 5, 100] ∧ (signalCode outcome = 0 ↔ ∃ found, outcome = .ok found) ∧
      (signalCode outcome = 5 ↔ ∃ error, outcome = .error (.error error)) ∧
      (signalCode outcome = 100 ↔ ∃ fault, outcome = .error (.fault fault)) := by
  rcases outcome with (fault | error | _) | found
  · simp [signalCode]
  · simp [signalCode]
  · exact absurd rfl h
  · simp [signalCode]

/-- What is printed of what an amplifier came to. -/
def signalOutput : Except Failure Found → String
  | .ok found => found.text
  | .error _ => ""

/-- Where an amplifier is run, what it comes to decides. -/
theorem ending_of_comes (h : r.Comes limit file outcome) :
    r.Ending limit file (signalCode outcome) (signalOutput outcome) := by
  have hwhole : ∀ outcome', r.Comes limit file outcome' ↔ outcome = outcome' := by
    intro outcome'
    exact ⟨fun h' => h.unique h', fun heq => heq ▸ h⟩
  obtain ⟨order, image, horder, hload, hcomes⟩ := h
  have hphases := not_refused_of_order? horder
  obtain ⟨hmem, hok, herror, hfault⟩ := signalCode_of_ne hcomes.settles.1
  have hcode : signalCode outcome = 0 ∨ signalCode outcome = 5 ∨ signalCode outcome = 100 := by
    simpa using hmem
  exact {
    mem := by
      simp only [List.mem_cons, List.not_mem_nil, or_false]
      omega
    usageError := iff_of_false (by omega) hphases
    loadError := iff_of_false (by omega) fun hnone => hnone.2 image hload
    pipelineError := by simp only [hwhole, herror]
    fault := by simp only [hwhole, hfault]
    ok := by simp only [hwhole, hok]
    silent := by
      intro hne
      cases outcome with
      | error failure => rfl
      | ok found => exact absurd rfl hne
    report := by
      intro found hfound
      rw [(hwhole _).1 hfound]
      rfl }

/-- The work of the command, run to the end, lets it exit with the code of what the amplifier came
to, if all of it is written. -/
theorem exits_of_comes {fuel : Nat} {o : AmplifyOptions} {content : Except ReadError ByteArray}
    (hend : outcome ≠ .error .unfinished)
    (hnotes : ∀ e ∈ (o.execute limit fuel content).log, limit.notes e = true)
    (htold : ∀ i ∈ toldIntegers outcome, limit.writes i = true)
    (h : (o.execute limit fuel content).outcome = outcome.mapError .amplifier) :
    (o.result limit fuel content).Exits (signalCode outcome) (signalOutput outcome) := by
  rcases outcome with (fault | error | _) | found
  · exact AmplifyOptions.exits_of_fault h hnotes htold
  · exact AmplifyOptions.exits_of_error h hnotes htold
  · exact absurd rfl hend
  · rw [AmplifyOptions.result_of_ok h hnotes]
    exact AmplifyOptions.exits_report_iff.2 ⟨rfl, rfl, htold⟩

/-- With an image, the command exits with the code of what the amplifier comes to. -/
theorem concludes_of_comes {o : AmplifyOptions} {content : Except ReadError ByteArray}
    {image : Image} (hload : (Image.load limit o.program content).outcome = .ok image)
    (hcomes : o.Comes image outcome) (hwritten : o.Written limit image outcome) :
    Concludes (fun fuel => o.result limit fuel content) (signalCode outcome)
      (signalOutput outcome) := by
  obtain ⟨hend, bound, hbound⟩ := hcomes.settles
  obtain ⟨⟨enough, hnotes⟩, htold⟩ := hwritten
  refine ⟨max bound enough, ?_⟩
  intro fuel hle
  refine exits_of_comes hend ?_ htold ?_
  · exact (AmplifyOptions.notes_of_load hload).2 (hnotes fuel (Nat.max_le.1 hle).2)
  · rw [AmplifyOptions.execute_of_load hload, hbound fuel (Nat.max_le.1 hle).1]

/-- A file without a program lets the command exit, whatever its options. -/
theorem exits_of_unloadable {fuel : Nat} {o : AmplifyOptions} (hnul : o.program.hasNul = false)
    (hshort : ¬Image.OverlongFile limit file) (h : ∀ image, ¬Image.Loads file image) :
    (o.result limit fuel (file.map String.toUTF8)).Exits 4 "" := by
  cases himage : (Image.load limit o.program (file.map String.toUTF8)).outcome with
  | ok image => exact absurd ((Image.load_eq_ok_iff hnul).1 himage).1 (h image)
  | error reason =>
      rw [AmplifyOptions.result_of_unloadable himage,
        if_pos (Image.isReported_of_load hnul hshort himage)]
      exact .finished _ _ _

/-- An integer in the file that has too many digits ends the command without an exit code. -/
theorem not_exits_of_overlong {fuel : Nat} {o : AmplifyOptions} (hnul : o.program.hasNul = false)
    (h : Image.OverlongFile limit file) :
    ¬(o.result limit fuel (file.map String.toUTF8)).Exits code stdout := by
  obtain ⟨refusal, hload⟩ := Image.load_of_overlong hnul h
  rw [AmplifyOptions.result_of_unloadable hload, if_neg (by simp [LoadError.isReported])]
  exact Result.not_exits_aborted _ _ _ _ _

/-- If its amplifier comes to an end and all of it is written, the command concludes, and in one of
the ways described. -/
theorem exists_ending {words : List String} {read : FilePath → Except ReadError ByteArray}
    (hwords : ofWords? limit words = some r)
    (hnul : (FilePath.ofString r.program).hasNul = false)
    (hread : read (.ofString r.program) = file.map String.toUTF8)
    (hshort : ¬Image.OverlongFile limit file)
    (hcomes : ∀ order image, r.order? limit = some order → Image.Loads file image →
      ∃ outcome, (r.withOrder order).Comes image outcome ∧
        (r.withOrder order).Written limit image outcome) :
    ∃ code stdout, Concludes (fun fuel => amplify limit fuel words read) code stdout ∧
      r.Ending limit file code stdout := by
  cases horder : r.order? limit with
  | none =>
      refine ⟨2, "", ⟨0, ?_⟩, ending_of_refused (order?_eq_none_iff.1 horder)⟩
      intro fuel _
      change (amplify limit fuel words read).Exits 2 ""
      rw [amplify_of_refused hwords horder]
      exact .usageError
  | some order =>
      have hprogram : (r.withOrder order).program.hasNul = false := hnul
      simp only [amplify_of_request hwords horder, hread]
      by_cases hload : ∃ image, Image.Loads file image
      · obtain ⟨image, hload⟩ := hload
        obtain ⟨outcome, hout, hwritten⟩ := hcomes order image horder hload
        have himage := (Image.load_eq_ok_iff hprogram).2 ⟨hload, hshort⟩
        exact ⟨_, _, concludes_of_comes himage hout hwritten,
          ending_of_comes ⟨order, image, horder, hload, hout⟩⟩
      · have hnone : ∀ image, ¬Image.Loads file image := fun image h => hload ⟨image, h⟩
        exact ⟨4, "", ⟨0, fun fuel _ => exits_of_unloadable hprogram hshort hnone⟩,
          ending_of_unloadable (not_refused_of_order? horder) hnone⟩

end AmplifyRequest

end CellMachine.Command
