import FilterQuery.Number.Binary64

/-!
# Decimals with 28 places

Numbers of a document and of a query are compared as decimals with at most 28 places. An integer is
such a decimal as it stands. A floating-point number is converted with a 96-bit coefficient: its
power of two is turned into a power of ten step by step, and figures beyond what the coefficient or
the 28 places can hold are rounded away, as are those beyond the precision of the format itself.
A number too large for the coefficient has no such decimal.
-/

namespace FilterQuery

/-- The decimal `units * 10 ^ (-28)`. -/
structure Fixed where
  units : Int
deriving DecidableEq

namespace Fixed

/-- The number of places. -/
def places : Nat := 28

/-- The coefficient of a converted number stays below this bound: it has 96 bits. -/
def coefficientBound : Nat := Nat.pow 2 96

/-- The units of a decimal that is one. -/
def one : Nat := Nat.pow 10 places

/-- An integer as a decimal. -/
def ofInt (n : Int) : Fixed := ⟨n * one⟩

/-- Turns `b * 2 ^ (-n)` with `e` halvings already counted as tens into `b' * 10 ^ e'`: each step
halves `b` or, if it is odd and there is room, multiplies it by five. -/
def clearHalves : Nat → Nat → Int → Nat × Int
  | 0, b, e => (b, e)
  | n + 1, b, e =>
    if b % 2 = 1 ∧ 5 * b < coefficientBound then clearHalves n (5 * b) e
    else clearHalves n (b / 2) (e + 1)

/-- Turns `b * 2 ^ n` into `b' * 10 ^ e'`: each step doubles `b` while there is room and divides it
by five after that; there is no result if tens would be left over.

A conversion starts with as many tens as doublings, and a doubling takes one of each away. So the
tens are left over at the first doubling for which there is no room: the conversion of a number that
is too large ends there, without a division by five. -/
def clearDoubles? : Nat → Nat → Int → Option (Nat × Int)
  | 0, b, e => some (b, e)
  | n + 1, b, e =>
    if 2 * b < coefficientBound then clearDoubles? n (2 * b) (e - 1)
    else if (n + 1 : Int) < 2 * e then none
    else clearDoubles? n (b / 5) e

/-- The product `b * 10 ^ n`, if it stays below the bound of the coefficient. After `clearHalves`
and `clearDoubles?` no positive power of ten is left, so a conversion asks only for `n = 0`. -/
def clearTens? : Nat → Nat → Option Nat
  | 0, b => some b
  | n + 1, b => if 10 * b < coefficientBound then clearTens? n (10 * b) else none

/-- A coefficient without its last figure, which is rounded away, a half upwards. -/
def dropFigure (b : Nat) : Nat := if 5 ≤ b % 10 then b / 10 + 1 else b / 10

/-- Drops `n` figures one after the other, ending at zero as soon as no figure is left. -/
def dropExcess : Nat → Nat → Nat
  | 0, b => b
  | n + 1, b => if b / 10 = 0 then 0 else dropExcess n (dropFigure b)

/-- Drops figures after the point while the coefficient has more than 52 bits; gives the coefficient
and the places left. -/
def dropNoise : Nat → Nat → Nat × Nat
  | 0, b => (b, 0)
  | n + 1, b => if Binary64.hiddenBit ≤ b then dropNoise n (dropFigure b) else (b, n + 1)

/-- The coefficient and the power of ten of a finite number before any figures are dropped. -/
def expand? (x : Binary64) : Option (Nat × Int) :=
  match x.exponent with
  | .negSucc n => some (clearHalves (n + 1) x.significand x.exponent)
  | .ofNat n => clearDoubles? n x.significand x.exponent

/-- The units of the magnitude of a finite number, if it is not too large. -/
def magnitude? (x : Binary64) : Option Nat :=
  if x.isZero then some 0
  else match expand? x with
    | none => none
    | some (b, .ofNat n) => (clearTens? n b).map (· * one)
    | some (b, .negSucc n) =>
      let shown := min (n + 1) places
      let (c, left) := dropNoise shown (dropExcess (n + 1 - shown) b)
      some (c * Nat.pow 10 (places - left))

/-- The decimal of a floating-point number; a number that is not finite or too large has none. -/
def ofBinary64? (x : Binary64) : Option Fixed :=
  if x.isFinite then
    (magnitude? x).map fun n => ⟨if x.negative then -(n : Int) else n⟩
  else none

/-- The order of two decimals. -/
def compare (a b : Fixed) : Ordering := Ord.compare a.units b.units

end Fixed

end FilterQuery
