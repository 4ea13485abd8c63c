import FilterQuery.Number.Fixed
import FilterQuery.Number.Notation

/-!
# Numbers

A number of a query or of a document is an integer, kept exactly, or a floating-point number.
-/

namespace FilterQuery

/-- An integer or a floating-point number. -/
inductive Number where
  | integer (n : Int)
  | float (x : Binary64)
deriving DecidableEq

namespace Number

/-- The text of an integer: its figures, after a minus sign if it is negative. -/
def writeInt : Int → String
  | .ofNat n => String.ofList (Nat.toDigits 10 n)
  | .negSucc n => String.ofList ('-' :: Nat.toDigits 10 (n + 1))

/-- The text of a number, a floating-point number in the given notation. -/
def write (style : Notation) : Number → String
  | integer n => writeInt n
  | float x => style.write x

/-- The decimal by which a number is compared with others, if it has one. -/
def toFixed? : Number → Option Fixed
  | integer n => some (.ofInt n)
  | float x => Fixed.ofBinary64? x

/-- The order of two numbers by their decimals, if both have one. -/
def compare? (a b : Number) : Option Ordering :=
  match a.toFixed?, b.toFixed? with
  | some x, some y => some (x.compare y)
  | _, _ => none

/-- Whether both numbers have a decimal, and the same one. -/
def sameValue (a b : Number) : Bool :=
  match a.toFixed?, b.toFixed? with
  | some x, some y => x == y
  | _, _ => false

/-- Equality of numbers of one kind: an integer never equals a floating-point number, and the two
floating-point zeros are equal. -/
def equals : Number → Number → Bool
  | integer a, integer b => a == b
  | float x, float y => x.equals y
  | _, _ => false

end Number

end FilterQuery
