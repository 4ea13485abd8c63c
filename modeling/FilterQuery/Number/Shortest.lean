import FilterQuery.Number.Binary64

/-!
# The fewest digits that read back

A finite number is written with the fewest decimal digits that read back as the same number; of
several such decimals the nearest one is taken. The digits are found by trial: on the grid of
decimals with 1, 2, … 17 digits, the two neighbours of the exact value are tested by reading them.
-/

namespace FilterQuery

/-- A positive decimal in scientific form: the figures, with a point after the first one, times
`10 ^ exponent`. -/
structure Decimal where
  /-- The figures, from the leading one on. -/
  figures : List Char
  /-- The power of ten of the leading figure. -/
  exponent : Int
deriving DecidableEq

/-- Which one of two equally near decimals is taken. -/
inductive TieRule where
  /-- The one with an even last figure. -/
  | toEven
  /-- The larger one. -/
  | upward
deriving DecidableEq

namespace Decimal

/-- The decimal `n * 10 ^ k`, without trailing zeros. -/
def ofScaled (n : Nat) (k : Int) : Decimal :=
  let figures := Nat.toDigits 10 n
  let trimmed := (figures.reverse.dropWhile (· == '0')).reverse
  if trimmed.isEmpty then ⟨['0'], 0⟩ else ⟨trimmed, (figures.length : Int) - 1 + k⟩

end Decimal

namespace Binary64

/-- The power of ten of the leading figure of `num / den`. -/
def decimalExponent (num den : Nat) : Int :=
  let estimate := (((num.log2 : Int) - den.log2) * 1233).fdiv 4096
  let below := scale 10 num den estimate
  let above := scale 10 num den (estimate + 1)
  if below.1 < below.2 then estimate - 1
  else if above.1 < above.2 then estimate
  else estimate + 1

/-- The two neighbours of `num / den` among the natural numbers, the nearer one first. -/
def neighbours (tie : TieRule) (num den : Nat) : List Nat :=
  let q := num / den
  let r := num % den
  let downFirst :=
    if 2 * r < den then true
    else if den < 2 * r then false
    else match tie with
      | .toEven => q % 2 == 0
      | .upward => false
  if downFirst then [q, q + 1] else [q + 1, q]

/-- The exact value of a finite number's magnitude, as a natural number times a power of ten. -/
def exactScaled (x : Binary64) : Nat × Int :=
  match x.exponent with
  | .ofNat n => (x.significand * Nat.pow 2 n, 0)
  | .negSucc n => (x.significand * Nat.pow 5 (n + 1), .negSucc n)

/-- The first decimal on the grid `10 ^ k` beside the magnitude of `x` that reads back as it. -/
def readsBackOn? (tie : TieRule) (x : Binary64) (k : Int) : Option Nat :=
  let (num, den) := x.toRatio
  let (n, d) := scale 10 num den k
  (neighbours tie n d).find? fun c => (ofScientific false c k).magnitude == x.magnitude

/-- The fewest digits that read back as the magnitude of a finite number. -/
def shortest (tie : TieRule) (x : Binary64) : Decimal :=
  let (num, den) := x.toRatio
  let top := decimalExponent num den
  let hit := (List.range 17).findSome? fun (i : Nat) =>
    let k := top - i
    (readsBackOn? tie x k).map fun c => (c, k)
  let (c, k) := hit.getD x.exactScaled
  Decimal.ofScaled c k

/-- A decimal found on a grid reads back as the magnitude it was found for. -/
theorem magnitude_of_readsBackOn? {tie : TieRule} {x : Binary64} {k : Int} {c : Nat}
    (h : readsBackOn? tie x k = some c) :
    (ofScientific false c k).magnitude = x.magnitude := by
  unfold readsBackOn? at h
  simpa using List.find?_some h

end Binary64

end FilterQuery
