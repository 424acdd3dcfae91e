import CellMachine.Text.Unprintable

/-!
# Quoted text

A text between quotes, on one line, in printable characters. The quotes are single, unless the text
holds single quotes and no double ones. The quote in use and the backslash are escaped by a
backslash; tab, newline and carriage return are `\t`, `\n` and `\r`; every other unprintable
character is written as its code point in hexadecimal, with two digits (`\x`), four (`\u`) or eight
(`\U`), whichever is the first to suffice.
-/

namespace CellMachine.Text.Quoted

/-- The single quote. -/
def single : Char := Char.ofNat 0x27

/-- The double quote. -/
def double : Char := Char.ofNat 0x22

/-- The quote to put around a text. -/
def quoteFor (s : List Char) : Char :=
  if s.contains single && !s.contains double then double else single

/-- A number in hexadecimal, with at least so many digits. -/
def hex (digits n : Nat) : List Char :=
  let written := Nat.toDigits 16 n
  List.replicate (digits - written.length) '0' ++ written

/-- One character as it stands between the given quotes. -/
def encodeChar (quote c : Char) : List Char :=
  if c = quote ∨ c = '\\' then ['\\', c]
  else if c = '\t' then ['\\', 't']
  else if c = '\n' then ['\\', 'n']
  else if c = '\r' then ['\\', 'r']
  else if isPrintable c then [c]
  else if c.toNat ≤ 0xFF then '\\' :: 'x' :: hex 2 c.toNat
  else if c.toNat ≤ 0xFFFF then '\\' :: 'u' :: hex 4 c.toNat
  else '\\' :: 'U' :: hex 8 c.toNat

/-- A text between quotes. -/
def encode (text : String) : String :=
  let s := text.toList
  let quote := quoteFor s
  String.ofList (quote :: s.flatMap (encodeChar quote) ++ [quote])

end CellMachine.Text.Quoted
