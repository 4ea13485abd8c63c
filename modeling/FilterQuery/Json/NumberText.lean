import FilterQuery.Json

/-!
# Numbers in JSON texts

The grammar of a JSON number and the number it denotes. An integer that fits 64 bits is kept exactly.
Any other number is a floating-point number made from a 64-bit significand: figures are taken into it
while they fit, further figures before the point only count as tens, and further figures after the
point are ignored; the significand is then scaled by one power of ten. Two roundings, of the
significand and of the scaling, make the result, so it may differ from the nearest number by one unit
in its last place. A number that is too large has no value.
-/

namespace FilterQuery.Json

/-- The parts of a written number. -/
structure NumberText where
  negative : Bool
  /-- The figures before the point. -/
  whole : List Char
  /-- The figures after the point, if there is a point. -/
  fraction : Option (List Char)
  /-- Whether the exponent is negative, and its figures, if there is an exponent. -/
  exponent : Option (Bool × List Char)

namespace NumberText

/-! ## Reading the parts -/

/-- Splits off the figures at the start of a text. -/
def splitFigures (cs : List Char) : List Char × List Char :=
  (cs.takeWhile Char.isDigit, cs.dropWhile Char.isDigit)

/-- Reads the figures before the point: at least one, and no zero before another one. -/
def readWhole? (cs : List Char) : Option (List Char × List Char) :=
  match splitFigures cs with
  | ([], _) => none
  | ('0' :: _ :: _, _) => none
  | parts => some parts

/-- Reads a point and figures, if a point comes next; at least one figure has to follow it. -/
def readFraction? (cs : List Char) : Option (Option (List Char) × List Char) :=
  match cs with
  | '.' :: rest =>
    match splitFigures rest with
    | ([], _) => none
    | (figures, rest) => some (some figures, rest)
  | cs => some (none, cs)

/-- Reads an exponent, if one comes next; at least one figure has to follow its sign. -/
def readExponent? (cs : List Char) : Option (Option (Bool × List Char) × List Char) :=
  match cs with
  | c :: rest =>
    if c = 'e' ∨ c = 'E' then
      let (negative, rest) := match rest with
        | '+' :: rest => (false, rest)
        | '-' :: rest => (true, rest)
        | rest => (false, rest)
      match splitFigures rest with
      | ([], _) => none
      | (figures, rest) => some (some (negative, figures), rest)
    else some (none, c :: rest)
  | [] => some (none, [])

/-- Reads a text as a number. -/
def ofChars? (cs : List Char) : Option NumberText := do
  let (negative, cs) := match cs with
    | '-' :: rest => (true, rest)
    | cs => (false, cs)
  let (whole, cs) ← readWhole? cs
  let (fraction, cs) ← readFraction? cs
  let (exponent, cs) ← readExponent? cs
  if cs.isEmpty then some ⟨negative, whole, fraction, exponent⟩ else none

/-! ## The value -/

/-- Significands and integers stay below this bound: they have 64 bits. -/
def significandBound : Nat := Nat.pow 2 64

/-- The value of a figure. -/
def figure (c : Char) : Nat := c.toNat - '0'.toNat

/-- Takes figures into a significand while they fit; gives the number of those left over. -/
def accumulate (n : Nat) : List Char → Nat × Nat
  | [] => (n, 0)
  | c :: figures =>
    if 10 * n + figure c < significandBound then accumulate (10 * n + figure c) figures
    else (n, figures.length + 1)

/-- The greatest power of ten used as a factor. -/
def greatestPower : Nat := 308

/-- The power of ten as a floating-point number. -/
def power (n : Nat) : Binary64 := .ofNat (Nat.pow 10 n)

/-- Divides by `10 ^ n`, by at most the greatest power at a time. -/
def scaleDown (x : Binary64) (n : Nat) : Binary64 :=
  if n ≤ greatestPower then x.div (power n)
  else if x.isZero then x
  else scaleDown (x.div (power greatestPower)) (n - greatestPower)
termination_by n
decreasing_by simp only [greatestPower] at *; omega

/-- The floating-point number for a significand times a power of ten, if it is not too large. -/
def scaled? (significand : Nat) (exponent : Int) : Option Binary64 :=
  let x := Binary64.ofNat significand
  match exponent with
  | .negSucc n => some (scaleDown x (n + 1))
  | .ofNat n =>
    if n ≤ greatestPower then
      let y := x.mul (power n)
      if y.isInfinite then none else some y
    else if significand = 0 then some x
    else none

/-- Exponents from this bound on are beyond every number. -/
def exponentBound : Nat := Nat.pow 2 31

/-- The floating-point number for a significand, the tens counted so far and a written exponent. -/
def float? (significand : Nat) (tens : Int) : Option (Bool × List Char) → Option Binary64
  | none => scaled? significand tens
  | some (negative, figures) =>
    let e := (accumulate 0 figures).1
    if e < exponentBound then scaled? significand (if negative then tens - e else tens + e)
    else if negative ∨ significand = 0 then some (.zero false)
    else none

/-- A floating-point number with a sign. -/
def signed (negative : Bool) (x : Binary64) : Number := .float (if negative then x.neg else x)

/-- The number that a text denotes, if it is not too large. -/
def value? (t : NumberText) : Option Number :=
  let (n, excess) := accumulate 0 t.whole
  if excess = 0 ∧ t.fraction.isNone ∧ t.exponent.isNone then
    if !t.negative then some (.integer n)
    else if 0 < n ∧ n ≤ Nat.pow 2 63 then some (.integer (-(n : Int)))
    else some (signed true (.ofNat n))
  else
    let figures := t.fraction.getD []
    let (n, left) := accumulate n figures
    (float? n ((excess : Int) - (figures.length - left : Nat)) t.exponent).map (signed t.negative)

end NumberText

end FilterQuery.Json
