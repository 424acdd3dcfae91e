import CellMachine.Text.Fields
import CellMachine.Text.Numeral

/-!
# Phase settings

An amplifier stage is tuned by an integer, its phase. Phases are given as integers between commas;
fields that hold blanks only are skipped.
-/

namespace CellMachine

/-- The settings of the stages, in order. -/
abbrev Phases := List Int

namespace Phases

/-- The phases of a chain when none are given. -/
def serial : Phases := [0, 1, 2, 3, 4]

/-- The phases of a ring when none are given. -/
def feedback : Phases := [5, 6, 7, 8, 9]

/-- Does a field hold anything but blanks? -/
def isFilled (field : List Char) : Bool := !field.all Text.isBlank

/-- Reads phases, unless a filled field is no integer. -/
def parse? (text : String) (limit : DigitLimit := .off) : Option Phases :=
  ((Text.fields ',' text.toList).filter isFilled).mapM fun field =>
    Text.Numeral.parse? (.ofList field) limit

/-- The wording for a text that gives no phases. -/
def refusal (text : String) : String := s!"Expected comma separated integers, got {text}"

end Phases

end CellMachine
