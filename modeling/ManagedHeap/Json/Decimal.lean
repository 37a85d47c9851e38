import ManagedHeap.Word
/-!
Decimals of at most 64 bits of digits, and which of them are finite in double precision. A number
may be written with more digits than fit: the first that fit are kept, and of the others only the
places of whole digits count.
-/
namespace ManagedHeap

/-- The number `digits · 10 ^ exponent`. -/
structure Decimal where
  digits : Nat
  exponent : Int := 0
  deriving DecidableEq, Repr, Inhabited

namespace Decimal

/-- Append digits to a number as long as it fits 64 bits. The digits from the first that does not
fit on come second. -/
def appendDigits (n : Nat) : List Char → Nat × List Char
  | [] => (n, [])
  | c :: cs =>
    let next := n * 10 + (c.toNat - '0'.toNat)
    if next < wordLimit 64 then appendDigits next cs else (n, c :: cs)

/-- The decimal written with these whole digits, digits behind the point and exponent. -/
def ofParts (whole fraction : List Char) (exponent : Int) : Decimal :=
  let (n, places) := appendDigits 0 whole
  let (digits, left) := appendDigits n fraction
  { digits, exponent := exponent + places.length - (fraction.length - left.length : Nat) }

/-! ## Double precision -/

/-- The nearest number with 53 binary digits before its zeros. Of two equally near ones the one
whose last digit is even. -/
def roundDouble (n : Nat) : Nat :=
  let unit := wordLimit (n.log2 - 52)
  let q := n / unit
  let r := n % unit
  (if unit < 2 * r ∨ (unit = 2 * r ∧ q % 2 = 1) then q + 1 else q) * unit

/-- From here on a product rounds to infinity. -/
def doubleLimit : Nat := wordLimit 1024 - wordLimit 970

/-- Whether the decimal is finite in double precision: digits and power of ten are rounded before
they are multiplied, and powers above `10 ^ 308` are infinite. -/
def isFinite (d : Decimal) : Bool :=
  if d.digits = 0 ∨ d.exponent < 0 then true
  else if 308 < d.exponent then false
  else roundDouble d.digits * roundDouble (Nat.pow 10 d.exponent.toNat) < doubleLimit

end Decimal

end ManagedHeap
