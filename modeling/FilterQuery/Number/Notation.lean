import FilterQuery.Number.Shortest

/-!
# Notations for numbers

How a floating-point number is laid out as text once its digits are known. A notation says which
numbers are written positionally, whether a point is always shown, and how the values that have no
digits are spelt. There are two: the one of JSON texts and the plain one for display.
-/

namespace FilterQuery

/-- The decisions of a number format. -/
structure Notation where
  /-- Which of two equally near digit strings is taken. -/
  tie : TieRule
  /-- The powers of ten of the leading figure that are written positionally; all if `none`. -/
  positional : Option (Int × Int)
  /-- Whether a whole number is written with `.0`. -/
  keepPoint : Bool
  /-- The text of "not a number". -/
  nan : String
  /-- The text of an infinity, given whether it is negative. -/
  infinity : Bool → String

namespace Notation

/-- Numbers in JSON texts: positional from `0.00001` up to sixteen figures before the point, always
with a point; a value without digits is null. -/
def json : Notation where
  tie := .toEven
  positional := some (-5, 15)
  keepPoint := true
  nan := "null"
  infinity := fun _ => "null"

/-- Numbers for display: positional throughout, and a whole number without a point. -/
def plain : Notation where
  tie := .upward
  positional := none
  keepPoint := false
  nan := "NaN"
  infinity := fun negative => if negative then "-inf" else "inf"

/-- `n` zeros. -/
def zeros (n : Nat) : List Char := List.replicate n '0'

/-- A decimal written with a point at its place. -/
def writePositional (keepPoint : Bool) (d : Decimal) : List Char :=
  match d.exponent with
  | .negSucc n => '0' :: '.' :: (zeros n ++ d.figures)
  | .ofNat n =>
    let whole := n + 1
    if d.figures.length ≤ whole then
      d.figures ++ zeros (whole - d.figures.length) ++ (if keepPoint then ['.', '0'] else [])
    else d.figures.take whole ++ '.' :: d.figures.drop whole

/-- A decimal written with one figure before the point and a signed exponent. -/
def writeExponent (d : Decimal) : List Char :=
  let mantissa := match d.figures with
    | lead :: more@(_ :: _) => lead :: '.' :: more
    | figures => figures
  let power := match d.exponent with
    | .ofNat n => '+' :: Nat.toDigits 10 n
    | .negSucc n => '-' :: Nat.toDigits 10 (n + 1)
  mantissa ++ 'e' :: power

/-- A decimal in the layout that the notation has for its size. -/
def writeDecimal (style : Notation) (d : Decimal) : List Char :=
  match style.positional with
  | none => writePositional style.keepPoint d
  | some (least, greatest) =>
    if least ≤ d.exponent ∧ d.exponent ≤ greatest then writePositional style.keepPoint d
    else writeExponent d

/-- The text of a floating-point number. -/
def write (style : Notation) (x : Binary64) : String :=
  if x.isNaN then style.nan
  else if x.isInfinite then style.infinity x.negative
  else
    let digits := style.writeDecimal (x.shortest style.tie)
    String.ofList (if x.negative then '-' :: digits else digits)

end Notation

end FilterQuery
