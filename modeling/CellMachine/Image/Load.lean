import CellMachine.FilePath
import CellMachine.Index
import CellMachine.Logged
import CellMachine.Image.Cells
import CellMachine.Image.Parse

/-!
# Loading an image

From a file to the cells a machine starts with: the bytes are text in UTF-8, its line ends are
unified, the text is read as a program, and cells are overwritten. A cell beyond the image extends
it with zeros, as long as there is room for them. The first step that fails ends it.

Reading a text by itself (`Image.ofText`) knows no digit limit, loading a file does.
-/

namespace CellMachine

/-- Why there is no image. -/
inductive LoadError where
  /-- The text is no program. -/
  | malformed (reason : Image.Malformed)
  /-- A cell below address zero is to be overwritten. -/
  | negativePatch (address : Int)
  /-- The file cannot be read. -/
  | unreadable (path : FilePath) (reason : ReadError)
  /-- The bytes are no text. -/
  | undecodable (path : FilePath)
  /-- An integer in the text has too many digits. -/
  | overlong (refusal : DigitLimit.Refusal)
  /-- The path is none that a file can have. -/
  | nulInPath
  /-- The image would need more cells than can be counted. -/
  | uncountable
  /-- The image would need more cells than there is room for. -/
  | noRoom
  deriving DecidableEq, Repr

/-- The wording for an image that cannot be loaded; lack of room has none. -/
def LoadError.message : LoadError → String
  | .malformed reason => reason.message
  | .negativePatch address => s!"Cannot patch negative address {address}"
  | .unreadable path reason => reason.message path
  | .undecodable path => "Not a text in UTF-8: " ++ Text.Quoted.encode path.text
  | .overlong refusal => refusal.message
  | .nulInPath => "embedded null byte"
  | .uncountable => Index.refusal
  | .noRoom => ""

/-- The integers in the wording, counts apart. -/
def LoadError.integers : LoadError → List Int
  | .negativePatch address => [address]
  | .malformed _ | .unreadable .. | .undecodable _ | .overlong _ | .nulInPath | .uncountable
  | .noRoom => []

/-- Do the commands report this reason, with an exit code for it? The others end them at once. -/
def LoadError.isReported : LoadError → Bool
  | .malformed _ | .negativePatch _ | .unreadable .. => true
  | .undecodable _ | .overlong _ | .nulInPath | .uncountable | .noRoom => false

namespace Image

/-- Reads a program text and notes the size of its image. -/
def ofText (text : String) : Logged LoadError Image :=
  match parse text with
  | .error reason => .fail (.malformed reason)
  | .ok image => ⟨[.parsed image.length], .ok image⟩

/-- Reads a program text under a digit limit. -/
def ofTextWithin (limit : DigitLimit) (text : String) : Logged LoadError Image :=
  match overlong? limit text with
  | some digits => .fail (.overlong (.read limit digits))
  | none => ofText text

/-- The text that bytes hold, its line ends unified. -/
def textOfBytes? (bytes : ByteArray) : Option String :=
  (String.fromUTF8? bytes).map fun text => .ofList (Text.unifyNewlines text.toList)

/-- Loads the image at a path, given what reading the file there gave. -/
def load (limit : DigitLimit) (path : FilePath) (content : Except ReadError ByteArray) :
    Logged LoadError Image := do
  Logged.note (.loading path.text)
  if path.hasNul then Logged.fail .nulInPath
  else
    match content with
    | .error reason => Logged.fail (.unreadable path reason)
    | .ok bytes =>
      match textOfBytes? bytes with
      | none => Logged.fail (.undecodable path)
      | some text => ofTextWithin limit text

/-- The cells that an image lacks to have one at an address. -/
def missing (image : Image) (address : Nat) : Nat := address + 1 - image.length

/-- The image with zeros behind it, so that it has a cell at an address. -/
def extendTo (image : Image) (address : Nat) : Image :=
  image ++ List.replicate (image.missing address) 0

/-- How many cells can be put behind an image at once, if there is room for so many: they have to be
counted, too. -/
def capacity (room : Nat) : Nat := min room 0x7fffffffffffffff

/-- Why an image cannot be given so many more cells, if it cannot. -/
def growthError? (room cells : Nat) : Option LoadError :=
  if !Index.fits cells then some .uncountable
  else if room < cells then some .noRoom
  else none

/-- Overwrites one cell. -/
def patchCell (room : Nat) (image : Image) (address value : Int) : Logged LoadError Image :=
  if address < 0 then .fail (.negativePatch address)
  else
    match growthError? room (image.missing address.toNat) with
    | some reason => .fail reason
    | none =>
      ⟨[.patching address.toNat value],
        .ok ((extendTo image address.toNat).set address.toNat value)⟩

/-- What there is room for can be made. -/
theorem growthError?_eq_none_iff (room cells : Nat) :
    growthError? room cells = none ↔ cells ≤ capacity room := by
  have hfits := Index.fits_iff cells
  unfold growthError? capacity
  by_cases hf : Index.fits cells = true
  · have hcount := hfits.1 hf
    simp [hf]
    omega
  · have hlarge : ¬cells ≤ 0x7fffffffffffffff := fun hle => hf (hfits.2 (by omega))
    simp [hf]
    omega

/-- Overwrites cells in order. -/
def patch (room : Nat) (image : Image) : Cells → Logged LoadError Image
  | [] => pure image
  | (address, value) :: cells => do
    let image ← patchCell room image address value
    patch room image cells

end Image

end CellMachine
