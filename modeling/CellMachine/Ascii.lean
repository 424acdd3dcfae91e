/-!
# Text as integers

A text goes into a machine as its code points, with a newline behind it if wanted and not there.
What comes out is text as long as the values are ASCII codes; from the first other value on, values
are just values.
-/

namespace CellMachine.Ascii

/-- Codes below this limit are characters. -/
def limit : Int := 128

/-- The code of a newline. -/
def newline : Int := 10

/-- The code points of a text. -/
def codes (text : String) : List Int := text.toList.map fun c => (c.toNat : Int)

/-- The code points of a text, closed by a newline if wanted. -/
def encode (text : String) (closed : Bool) : List Int :=
  let values := codes text
  if closed && values.getLast? != some newline then values ++ [newline] else values

/-- Is this value an ASCII code? -/
def isCode (value : Int) : Bool := decide (0 ≤ value) && decide (value < limit)

/-- The character of an ASCII code. -/
def character (code : Int) : Char := Char.ofNat code.toNat

/-- The text at the front of the values, and the values from the first on that is no code. -/
def decode (values : List Int) : String × List Int :=
  (.ofList ((values.takeWhile isCode).map character), values.dropWhile isCode)

/-! ## What the two directions keep -/

@[simp] theorem codes_ofList (cs : List Char) :
    codes (.ofList cs) = cs.map fun c => (c.toNat : Int) := by
  simp [codes]

/-- The code of a character that stands for a code is that code. -/
theorem toNat_character {code : Int} (h : isCode code = true) :
    ((character code).toNat : Int) = code := by
  simp only [isCode, Bool.and_eq_true, decide_eq_true_eq] at h
  have hlimit : limit = 128 := rfl
  have hvalid : code.toNat.isValidChar := .inl (by omega)
  have hnat : (character code).toNat = code.toNat := by
    rw [character, Char.ofNat, dif_pos hvalid]
    rfl
  rw [hnat]
  omega

/-- Text and rest make up the values. -/
theorem codes_decode (values : List Int) :
    codes (decode values).1 ++ (decode values).2 = values := by
  have hmap : ((values.takeWhile isCode).map character).map (fun c => (c.toNat : Int)) =
      values.takeWhile isCode := by
    rw [List.map_map]
    refine (List.map_congr_left fun code hcode => ?_).trans (List.map_id _)
    exact toNat_character (List.all_eq_true.1 List.all_takeWhile code hcode)
  simp [decode, hmap]

end CellMachine.Ascii
