import CellMachine.Text.Numeral

/-!
# Cells to overwrite

A cell is given as `ADDR=VALUE`. Several cells form a map in which an address keeps its first place
and takes its last value.
-/

namespace CellMachine

/-- Addresses with the values to write there, each address once. -/
abbrev Cells := List (Int × Int)

namespace Cells

/-- Gives an address a value; an address that is there keeps its place. -/
def assign (address value : Int) : Cells → Cells
  | [] => [(address, value)]
  | (a, v) :: rest =>
    if a = address then (a, value) :: rest else (a, v) :: assign address value rest

/-- The map of a list of pairs. -/
def ofPairs (pairs : List (Int × Int)) : Cells :=
  pairs.foldl (fun cells (address, value) => cells.assign address value) []

/-- Why a text gives no cell. -/
inductive Error where
  /-- It has no equals sign. -/
  | noSeparator (cell : String)
  /-- An integer is missing on one side. -/
  | notIntegers (cell : String)
  deriving DecidableEq, Repr

/-- The wording of a refusal. -/
def Error.message : Error → String
  | .noSeparator cell => s!"Expected ADDR=VALUE, got {cell}"
  | .notIntegers cell => s!"Expected integers in {cell}"

/-- Reads one cell: the address stands before the first equals sign. -/
def parseCell (cell : String) (limit : DigitLimit := .off) : Except Error (Int × Int) :=
  let s := cell.toList
  match s.dropWhile (· ≠ '=') with
  | [] => .error (.noSeparator cell)
  | _ :: value =>
    let address := s.takeWhile (· ≠ '=')
    match Text.Numeral.parse? (.ofList address) limit,
      Text.Numeral.parse? (.ofList value) limit with
    | some address, some value => .ok (address, value)
    | _, _ => .error (.notIntegers cell)

/-- Reads a list of cells; the first that is none is named. -/
def parse (cells : List String) (limit : DigitLimit := .off) : Except Error Cells := do
  let pairs ← cells.mapM (parseCell · limit)
  return ofPairs pairs

end Cells

end CellMachine
