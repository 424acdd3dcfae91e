/-!
# Limits on digits

Integers are of any size here, but it takes long to write or to read one that has many digits, and
so a system may limit their number. An integer with more decimal digits than that is neither written
nor read: the attempt is *refused*. Leading zeros count, a sign does not.

Only integers that are computed or given can have so many digits. Counts cannot, be it of cells,
values, lines, rounds or instructions, because no limit is lower than 640 digits. So a count can
always be written.

Elsewhere in this library an integer is written with `toString` and read by `Text.Numeral.parse?` or
`Image.ofText`, whatever its size, as if there was no limit. Where a limit matters, an operation
takes it for an argument or has a twin that does: a machine that writes down its notes
(`CellMachine.Machine.Limited`), a report (`Report.print`), a program text (`Image.ofTextWithin`),
and both commands.
-/

namespace CellMachine

/-- How many decimal digits an integer may have to be written or read. -/
structure DigitLimit where
  /-- The most digits; zero if there is no limit. -/
  most : Nat
  /-- A limit cannot be set as low as one likes. -/
  settable : most = 0 ∨ 640 ≤ most
  deriving DecidableEq, Repr

namespace DigitLimit

/-- No limit. -/
def off : DigitLimit := ⟨0, by decide⟩

/-- The limit of a system on which none was set. -/
def usual : DigitLimit := ⟨4300, by decide⟩

/-- Is an integer of so many digits read? -/
def reads (limit : DigitLimit) (digits : Nat) : Bool :=
  limit.most == 0 || decide (digits ≤ limit.most)

/-- Is this integer written? -/
def writes (limit : DigitLimit) (i : Int) : Bool :=
  limit.most == 0 || decide (i.natAbs < Nat.pow 10 limit.most)

/-- An integer is written exactly if as many digits as it has are read. -/
theorem writes_eq_reads (limit : DigitLimit) (i : Int) :
    limit.writes i = limit.reads (Nat.toDigits 10 i.natAbs).length := by
  by_cases h : limit.most = 0
  · simp [writes, reads, h]
  · have hlength : (Nat.toDigits 10 i.natAbs).length ≤ limit.most ↔
        i.natAbs < Nat.pow 10 limit.most :=
      Nat.length_toDigits_le_iff (by decide) (Nat.pos_of_ne_zero h)
    simp only [writes, reads, hlength]

/-- An integer of so few digits that no limit can forbid them is written. -/
theorem writes_of_lt (limit : DigitLimit) {i : Int} {k : Nat} (hk : k ≤ 640)
    (h : i.natAbs < Nat.pow 10 k) : limit.writes i = true := by
  cases limit.settable with
  | inl hoff => simp [writes, hoff]
  | inr hmost =>
    have hpow : Nat.pow 10 k ≤ Nat.pow 10 limit.most :=
      Nat.pow_le_pow_right (by decide) (Nat.le_trans hk hmost)
    simp only [writes, decide_eq_true (Nat.lt_of_lt_of_le h hpow), Bool.or_true]

@[simp] theorem reads_off (digits : Nat) : off.reads digits = true := rfl
@[simp] theorem writes_off (i : Int) : off.writes i = true := rfl

/-- Why an integer is not written or not read. -/
inductive Refusal where
  /-- An integer to be written has too many digits. -/
  | write (limit : DigitLimit)
  /-- An integer to be read has so many digits, which are too many. -/
  | read (limit : DigitLimit) (digits : Nat)
  deriving DecidableEq, Repr

/-- The wording of a refusal. -/
def Refusal.message : Refusal → String
  | .write limit =>
    s!"Exceeds the limit ({limit.most} digits) for integer string conversion; " ++ advice
  | .read limit digits =>
    s!"Exceeds the limit ({limit.most} digits) for integer string conversion: " ++
      s!"value has {digits} digits; " ++ advice
where
  /-- What can be done about it. -/
  advice : String := "use sys.set_int_max_str_digits() to increase the limit"

end DigitLimit

end CellMachine
