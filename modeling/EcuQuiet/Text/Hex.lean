import EcuQuiet.Time
import EcuQuiet.Bytes

/-!
# Numbers and spans in messages

Identifiers and bytes are written in upper-case hexadecimal, identifiers without leading zeros and
bytes with two digits. A span is written in the largest unit that it fills, with as many
fractional digits as it needs: `1.5s`, `500ms`, `10.5µs`, `0ns`.
-/

namespace EcuQuiet.Text

/-- Upper-case hexadecimal digits without leading zeros. -/
def hex (n : Nat) : String :=
  String.ofList ((Nat.toDigits 16 n).map Char.toUpper)

/-- Two upper-case hexadecimal digits. -/
def hexByte (b : UInt8) : String :=
  hex (highHalf b) ++ hex (lowHalf b)

/-- Items between brackets, separated by a comma and a blank. -/
def bracketed (items : List String) : String :=
  "[" ++ ", ".intercalate items ++ "]"

/-- Bytes in brackets, as in `[10, 03]`. -/
def bytes (data : Bytes) : String :=
  bracketed (data.map hexByte)

/-- An identifier with its base, as in `0x7D0`. -/
def address (a : UInt32) : String := "0x" ++ hex a.toNat

/-- Identifiers in brackets, as in `[0x500, 0x501]`. -/
def addresses (list : List UInt32) : String :=
  bracketed (list.map address)

/-- The digits of a fraction after the point, in so many places, without trailing zeros. -/
def fraction (places part : Nat) : List Char :=
  (((Nat.toDigits 10 part).leftpad places '0').reverse.dropWhile (· = '0')).reverse

/-- A number of nanoseconds in a larger unit of so many of them, with the fraction it needs; the
unit is one with so many zeros. -/
def inUnits (unit places nanos : Nat) (unitName : String) : String :=
  let digits := fraction places (nanos % unit)
  let point := if digits.isEmpty then "" else "." ++ String.ofList digits
  toString (nanos / unit) ++ point ++ unitName

/-- A span in the largest unit that it fills. -/
def span (d : Span) : String :=
  if 1000000000 ≤ d.nanos then inUnits 1000000000 9 d.nanos "s"
  else if 1000000 ≤ d.nanos then inUnits 1000000 6 d.nanos "ms"
  else if 1000 ≤ d.nanos then inUnits 1000 3 d.nanos "µs"
  else inUnits 1 0 d.nanos "ns"

end EcuQuiet.Text
