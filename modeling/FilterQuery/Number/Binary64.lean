/-!
# Binary64 numbers

Floating-point numbers of the binary64 format, with exact rational arithmetic followed by one
rounding. A number is a sign and a magnitude, where the magnitude holds the exponent field and the
fraction field of the format read as one natural number. So magnitudes are ordered as the numbers
are, rounding a significand up past its last value steps to the next exponent by itself, and two
numbers are the same exactly if their fields are.
-/

namespace FilterQuery

/-- A floating-point number of the binary64 format. -/
structure Binary64 where
  /-- The sign. -/
  negative : Bool
  /-- The exponent field and the 52 bits of the fraction field, read as one number of 63 bits. -/
  magnitude : Fin 0x8000000000000000
deriving DecidableEq

namespace Binary64

/-- The weight of the leading bit that a significand has without its being written: two to the
power of 52, the number of values of the fraction field. -/
def hiddenBit : Nat := 0x10000000000000

/-- The magnitude of the infinities; magnitudes above it are not numbers. -/
def infiniteMagnitude : Nat := 2047 * hiddenBit

/-- Neither infinite nor "not a number". -/
def isFinite (x : Binary64) : Bool := x.magnitude.val < infiniteMagnitude

/-- One of the two infinities. -/
def isInfinite (x : Binary64) : Bool := x.magnitude.val == infiniteMagnitude

/-- "Not a number". -/
def isNaN (x : Binary64) : Bool := infiniteMagnitude < x.magnitude.val

/-- One of the two zeros. -/
def isZero (x : Binary64) : Bool := x.magnitude.val == 0

/-- The number with the given sign and magnitude, where a magnitude that is too large means
infinity. -/
def ofMagnitude (negative : Bool) (n : Nat) : Binary64 :=
  ⟨negative, Fin.ofNat _ (min n infiniteMagnitude)⟩

/-- The zero of the given sign. -/
def zero (negative : Bool) : Binary64 := ofMagnitude negative 0

/-- The infinity of the given sign. -/
def infinity (negative : Bool) : Binary64 := ofMagnitude negative infiniteMagnitude

/-- "Not a number", in its usual form. -/
def nan : Binary64 := ⟨false, Fin.ofNat _ (infiniteMagnitude + hiddenBit / 2)⟩

/-- The number with the other sign. -/
def neg (x : Binary64) : Binary64 := { x with negative := !x.negative }

/-- A finite number is `significand * 2 ^ exponent` up to its sign. -/
def significand (x : Binary64) : Nat :=
  let fraction := x.magnitude.val % hiddenBit
  if x.magnitude.val / hiddenBit = 0 then fraction else hiddenBit + fraction

/-- The power of two that scales the significand. -/
def exponent (x : Binary64) : Int :=
  let field : Nat := x.magnitude.val / hiddenBit
  if field = 0 then -1074 else (field : Int) - 1075

/-- The 64 bits of the format as one number, the sign on top. -/
def toBits (x : Binary64) : Nat := (if x.negative then 0x8000000000000000 else 0) + x.magnitude.val

/-- Equality of the numbers: both zeros are equal, and "not a number" equals nothing. -/
def equals (x y : Binary64) : Bool :=
  !x.isNaN && !y.isNaN && (x == y || (x.isZero && y.isZero))

/-! ## Rounding -/

/-- The quotient rounded to the nearest natural number, a half to the even one. -/
def roundQuotient (num den : Nat) : Nat :=
  let q := num / den
  let r := num % den
  if 2 * r < den then q
  else if den < 2 * r then q + 1
  else q + q % 2

/-- The fraction `num / den / base ^ k` as a numerator and a denominator. -/
def scale (base : Nat) (num den : Nat) (k : Int) : Nat × Nat :=
  match k with
  | .ofNat n => (num, den * Nat.pow base n)
  | .negSucc n => (num * Nat.pow base (n + 1), den)

/-- The exponent at which `num / den` is rounded: the one that leaves a significand of 53 bits, or
the least exponent of the format. -/
def roundingExponent (num den : Nat) : Int :=
  let e : Int := max ((num.log2 : Int) - den.log2 - 53) (-1074)
  let (n, d) := scale 2 num den e
  if n / d < 2 * hiddenBit then e else e + 1

/-- The number nearest to `num / den` with the given sign, of two equally near ones the one with an
even significand. -/
def ofRatio (negative : Bool) (num den : Nat) : Binary64 :=
  if num = 0 then zero negative
  else
    let e := roundingExponent num den
    let (n, d) := scale 2 num den e
    ofMagnitude negative ((e + 1074).toNat * hiddenBit + roundQuotient n d)

/-- The number nearest to a natural number. -/
def ofNat (n : Nat) : Binary64 := ofRatio false n 1

/-- The number nearest to `digits * 10 ^ exponent`. -/
def ofScientific (negative : Bool) (digits : Nat) (exponent : Int) : Binary64 :=
  let (n, d) := scale 10 digits 1 (-exponent)
  ofRatio negative n d

/-- The magnitude of a finite number as a fraction. -/
def toRatio (x : Binary64) : Nat × Nat := scale 2 x.significand 1 (-x.exponent)

/-! ## Arithmetic on finite numbers -/

/-- The rounded product of two finite numbers. -/
def mul (x y : Binary64) : Binary64 :=
  let (a, b) := x.toRatio
  let (c, d) := y.toRatio
  ofRatio (x.negative != y.negative) (a * c) (b * d)

/-- The rounded quotient of two finite numbers, the second one not zero. -/
def div (x y : Binary64) : Binary64 :=
  let (a, b) := x.toRatio
  let (c, d) := y.toRatio
  ofRatio (x.negative != y.negative) (a * d) (b * c)

end Binary64

end FilterQuery
