import CellMachine.Ascii
import CellMachine.DigitLimit

/-!
# Reports

How the values that a machine emitted are printed: each on a line of its own, or, on request, the
text at their front as text and the values after it on lines of their own. The text is closed by a
newline if there is any and it has none.

`Report.render` is the whole report, of values of any size. Values are printed one after another, so
that under a digit limit the report ends in front of the first value that is not written
(`Report.print`).
-/

namespace CellMachine

/-- What a user may choose about a run. -/
structure Settings where
  /-- Note the registers before every instruction. -/
  trace : Bool := false
  /-- Print text as text. -/
  asciiOutput : Bool := false
  deriving DecidableEq, Repr

/-- The settings with the given choices; what is not chosen stays. -/
def Settings.update (s : Settings) (trace asciiOutput : Option Bool) : Settings where
  trace := trace.getD s.trace
  asciiOutput := asciiOutput.getD s.asciiOutput

namespace Report

/-- A value on a line of its own. -/
def line (value : Int) : String := toString value ++ "\n"

/-- Values on lines of their own. -/
def lines (values : List Int) : String := String.join (values.map line)

/-- A text closed by a newline, if it holds anything. -/
def closed (text : String) : String :=
  if text = "" ∨ text.toList.getLast? = some '\n' then text else text ++ "\n"

/-- Text as text, then values on lines of their own. -/
def ascii (values : List Int) : String :=
  let (text, rest) := Ascii.decode values
  closed text ++ lines rest

/-- What is printed for the values emitted. -/
def render (settings : Settings) (values : List Int) : String :=
  if settings.asciiOutput then ascii values else lines values

/-- What is printed as text, and the values that are printed as integers. -/
def parts (settings : Settings) (values : List Int) : String × List Int :=
  if settings.asciiOutput then Ascii.decode values else ("", values)

end Report

/-- What was printed, and why that was not all. -/
structure Printed where
  /-- The text that was printed. -/
  text : String
  /-- The refusal that ended it, if one did. -/
  refusal : Option DigitLimit.Refusal := none
  deriving DecidableEq, Repr

namespace Report

/-- Prints the values emitted, until one is not written. -/
def print (limit : DigitLimit) (settings : Settings) (values : List Int) : Printed where
  text := closed (parts settings values).1 ++
    lines ((parts settings values).2.takeWhile limit.writes)
  refusal := if (parts settings values).2.all limit.writes then none else some (.write limit)

/-- A report is its text, closed, and its values. -/
theorem render_eq_parts (settings : Settings) (values : List Int) :
    render settings values =
      closed (parts settings values).1 ++ lines (parts settings values).2 := by
  unfold render parts ascii
  split
  · rfl
  · rw [closed, if_pos (.inl rfl), String.empty_append]

/-- If all of it is written, the whole report is printed. -/
theorem print_of_writes {limit : DigitLimit} {settings : Settings} {values : List Int}
    (h : ∀ v ∈ (parts settings values).2, limit.writes v = true) :
    print limit settings values = { text := render settings values } := by
  have htake : ((parts settings values).2 ++ []).takeWhile limit.writes =
      (parts settings values).2 ++ [] := List.takeWhile_append_of_pos h
  rw [List.append_nil] at htake
  rw [print, render_eq_parts, if_pos (List.all_eq_true.2 h), htake]

/-- In front of the first value that is not written the report ends. -/
theorem print_of_refused {limit : DigitLimit} {settings : Settings} {values front back : List Int}
    {v : Int} (hparts : (parts settings values).2 = front ++ v :: back)
    (hfront : ∀ w ∈ front, limit.writes w = true) (hv : limit.writes v = false) :
    print limit settings values =
      { text := closed (parts settings values).1 ++ lines front
        refusal := some (.write limit) } := by
  have htake : (front ++ v :: back).takeWhile limit.writes = front := by
    rw [List.takeWhile_append_of_pos hfront]
    simp [hv]
  rw [print, hparts, htake, if_neg (by simp [hv])]

end Report

end CellMachine
