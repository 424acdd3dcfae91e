import CellMachine.Command.Amplify

/-!
# CellMachine.Proofs.Command.Request

**What the words given to the amplifier command tell.** The words are read in two steps. First they
are sorted into options and a program file (`AmplifyRequest.ofWords?`); then the text of the phases
is read, which may refuse it (`AmplifyRequest.options?`). The command does both in one
(`ofItems?_eq`). Every request can be made whose seed can be written (`ofWords?_words`), whatever
the texts in it look like.
-/

namespace CellMachine

/-! ### Reading words one by one -/

namespace Options

variable {κ : Type} {specs : List (Spec κ)} {items : List (Item κ)} {word : String} {key : κ}

/-- A word of flags stands for them. -/
theorem read_flags (hword : word ≠ "--") (hoption : isOption word = true)
    (h : readWord specs word = some (items, none)) (words : List String) :
    read specs (word :: words) = (read specs words).map (items ++ ·) := by
  rw [read.eq_def]
  simp only [if_neg hword, if_pos hoption, h]

/-- The word behind an option that waits for a value is its value, whatever it looks like. -/
theorem read_value (hword : word ≠ "--") (hoption : isOption word = true)
    (h : readWord specs word = some ([], some key)) (value : String) (words : List String) :
    read specs (word :: value :: words) = (read specs words).map (.value key value :: ·) := by
  rw [read.eq_def]
  simp only [if_neg hword, if_pos hoption, h, List.nil_append]

/-- Behind two dashes every word is positional. -/
theorem read_dashes (words : List String) :
    read specs ("--" :: words) = some (words.map .positional) := by
  rw [read.eq_def]
  exact if_pos rfl

end Options

/-! ### Phases as they are written -/

namespace Phases

theorem isFilled_repr (x : Int) : isFilled x.repr.toList = true := by
  cases hx : x.repr.toList with
  | nil => exact absurd hx (Text.toList_repr_ne_nil x)
  | cons c rest =>
      have hc : Text.isBlank c = false :=
        Text.Numeral.isBlank_eq_false (Text.isDigit_or_eq_of_mem_repr (by rw [hx]; simp))
      simp [isFilled, hc]

/-- Decimals between commas are read as the phases they are written for, if these can be written. -/
theorem parse?_decimals (limit : DigitLimit) (xs : List Int) :
    parse? (",".intercalate (xs.map toString)) limit =
      if xs.all limit.writes then some xs else none := by
  by_cases hne : xs = []
  · subst hne
    rfl
  · have hfilled : (xs.map fun x => x.repr.toList).filter isFilled =
        xs.map fun x => x.repr.toList := by
      rw [List.filter_eq_self]
      intro field hfield
      obtain ⟨x, -, rfl⟩ := List.mem_map.1 hfield
      exact isFilled_repr x
    rw [parse?, Text.fields_decimals hne, hfilled, List.mapM_map]
    simp only [Function.comp_def, String.ofList_toList, Text.Numeral.parse?_repr_within]
    clear hne hfilled
    induction xs with
    | nil => rfl
    | cons x xs ih => cases hx : limit.writes x <;> cases hall : xs.all limit.writes <;> simp_all

end Phases

namespace Command

/-- What the amplifier command is told, its phases as they were written. -/
structure AmplifyRequest where
  /-- Show debug lines. -/
  verbose : Bool
  /-- The text of the phases, if there is one. -/
  phases : Option String
  /-- Wire the machines as a ring. -/
  feedback : Bool
  /-- Try every order of the phases. -/
  search : Bool
  /-- The signal that goes in. -/
  seed : Int
  /-- The program file, as it was written. -/
  program : String
  deriving DecidableEq, Repr

namespace AmplifyRequest

/-- What the words given to the command tell. -/
def ofItems? (limit : DigitLimit) (items : List (Options.Item AmplifyKey)) :
    Option AmplifyRequest := do
  let program ← Options.onlyPositional? items
  let seed ←
    match Options.lastValue? items .seed with
    | none => some Amplifier.defaultSeed
    | some text => Text.Numeral.parse? text limit
  return {
    verbose := Options.hasFlag items .verbose
    phases := Options.lastValue? items .phases
    feedback := Options.hasFlag items .feedback
    search := Options.hasFlag items .search
    seed, program }

/-- Reads the words given to the command, unless they ask how it is used. -/
def ofWords? (limit : DigitLimit) (words : List String) : Option AmplifyRequest := do
  let items ← Options.read amplifySpecs words
  if Options.hasFlag items .help then none else ofItems? limit items

/-- How the machines are wired. -/
def wiring (r : AmplifyRequest) : Amplifier.Wiring := if r.feedback then .ring else .chain

/-- The phases, unless their text is refused. -/
def order? (limit : DigitLimit) (r : AmplifyRequest) : Option Phases :=
  match r.phases with
  | none => some r.wiring.defaultPhases
  | some text => Phases.parse? text limit

/-- The options of a request whose phases are these. -/
def withOrder (r : AmplifyRequest) (order : Phases) : AmplifyOptions where
  verbose := r.verbose
  phases := order
  wiring := r.wiring
  search := r.search
  seed := r.seed
  program := .ofString r.program

/-- What the command does about a request, unless the text of the phases is refused. -/
def options? (limit : DigitLimit) (r : AmplifyRequest) : Option AmplifyOptions :=
  (r.order? limit).map r.withOrder

section

variable {limit : DigitLimit} {fuel : Nat} {words : List String} {r : AmplifyRequest}
variable {read : FilePath → Except ReadError ByteArray} {order : Phases}

/-- The command reads a request, and then the phases in it. -/
theorem ofItems?_eq (limit : DigitLimit) (items : List (Options.Item AmplifyKey)) :
    AmplifyOptions.ofItems? limit items = (ofItems? limit items).bind (options? limit) := by
  unfold AmplifyOptions.ofItems? ofItems?
  cases hprogram : Options.onlyPositional? items with
  | none => rfl
  | some program =>
      cases hseed : Options.lastValue? items .seed with
      | none =>
          cases Options.lastValue? items .phases <;>
            simp [options?, order?, withOrder, wiring, Option.map_eq_bind,
              Function.comp_def]
      | some text =>
          cases hvalue : Text.Numeral.parse? text limit with
          | none => simp [hvalue]
          | some seed =>
              cases Options.lastValue? items .phases <;>
                simp [hvalue, options?, order?, withOrder, wiring, Option.map_eq_bind,
                  Function.comp_def]

/-- Words tell a request if they can be read and do not ask how the command is used. -/
theorem ofWords?_eq_some (h : ofWords? limit words = some r) :
    ∃ items, Options.read amplifySpecs words = some items ∧
      Options.hasFlag items .help = false ∧ ofItems? limit items = some r := by
  obtain ⟨items, hread, h⟩ := Option.bind_eq_some_iff.1 h
  rw [Option.ite_none_left_eq_some, Bool.not_eq_true] at h
  exact ⟨items, hread, h.1, h.2⟩

/-- The command does what its words request. -/
theorem amplify_of_request (hwords : ofWords? limit words = some r)
    (horder : r.order? limit = some order) :
    amplify limit fuel words read =
      (r.withOrder order).result limit fuel (read (.ofString r.program)) := by
  obtain ⟨items, hread, hhelp, hitems⟩ := ofWords?_eq_some hwords
  have hoptions : AmplifyOptions.ofItems? limit items = some (r.withOrder order) := by
    rw [ofItems?_eq, hitems, Option.bind_some, options?, horder]
    rfl
  simp only [amplify, hread, hhelp, hoptions]
  exact if_neg Bool.false_ne_true

/-- A request whose phases are refused makes no sense. -/
theorem amplify_of_refused (hwords : ofWords? limit words = some r)
    (horder : r.order? limit = none) : amplify limit fuel words read = .usageError := by
  obtain ⟨items, hread, hhelp, hitems⟩ := ofWords?_eq_some hwords
  have hoptions : AmplifyOptions.ofItems? limit items = none := by
    rw [ofItems?_eq, hitems, Option.bind_some, options?, horder]
    rfl
  simp only [amplify, hread, hhelp, hoptions]
  exact if_neg Bool.false_ne_true

end

/-! ### Words for a request -/

/-- A flag, if it is to be given. -/
def flagWord (given : Bool) (word : String) : List String := if given then [word] else []

/-- Words that tell a request. -/
def words (r : AmplifyRequest) : List String :=
  flagWord r.verbose "-v" ++ flagWord r.feedback "--feedback" ++ flagWord r.search "--search" ++
    (r.phases.elim [] fun text => ["-p", text]) ++
    ["--seed", toString r.seed, "--", r.program]

/-- A flag word in front of others stands for its flag, if it is given. -/
theorem read_flagWord {word : String} {key : AmplifyKey} (given : Bool) (hword : word ≠ "--")
    (hoption : Options.isOption word = true)
    (h : Options.readWord amplifySpecs word = some ([.flag key], none)) (words : List String) :
    Options.read amplifySpecs (flagWord given word ++ words) =
      (Options.read amplifySpecs words).map ((if given then [.flag key] else []) ++ ·) := by
  cases given with
  | false => simp [flagWord]
  | true => exact Options.read_flags hword hoption h words

/-- What the words for a request stand for. -/
theorem read_words (r : AmplifyRequest) :
    Options.read amplifySpecs r.words =
      some ((if r.verbose then [.flag .verbose] else []) ++
        ((if r.feedback then [.flag .feedback] else []) ++
          ((if r.search then [.flag .search] else []) ++
            ((r.phases.elim [] fun text => [.value .phases text]) ++
              [.value .seed (toString r.seed), .positional r.program])))) := by
  have hlast : Options.read amplifySpecs ["--seed", toString r.seed, "--", r.program] =
      some [.value .seed (toString r.seed), .positional r.program] := by
    rw [Options.read_value (by decide) (by decide) rfl, Options.read_dashes]
    rfl
  have hphases : Options.read amplifySpecs ((r.phases.elim [] fun text => ["-p", text]) ++
      ["--seed", toString r.seed, "--", r.program]) =
      some ((r.phases.elim [] fun text => [.value .phases text]) ++
        [.value .seed (toString r.seed), .positional r.program]) := by
    cases r.phases with
    | none => exact hlast
    | some text =>
        exact (Options.read_value (by decide) (by decide) rfl text _).trans
          (congrArg (Option.map _) hlast)
  simp only [words, List.append_assoc]
  rw [read_flagWord _ (by decide) (by decide) rfl, read_flagWord _ (by decide) (by decide) rfl,
    read_flagWord _ (by decide) (by decide) rfl, hphases]
  simp only [Option.map_some]

/-- Every request can be made whose seed can be written. -/
theorem ofWords?_words {limit : DigitLimit} (r : AmplifyRequest)
    (hseed : limit.writes r.seed = true) : ofWords? limit r.words = some r := by
  rcases r with ⟨verbose, phases, feedback, search, seed, program⟩
  have hread : Text.Numeral.parse? seed.repr limit = some seed := by
    rw [Text.Numeral.parse?_repr_within, if_pos hseed]
  rw [ofWords?, read_words]
  cases verbose <;> cases phases <;> cases feedback <;> cases search <;>
    simp [ofItems?, Options.onlyPositional?, Options.positionals, Options.lastValue?,
      Options.values, Options.hasFlag, hread]

end AmplifyRequest

end Command

end CellMachine
