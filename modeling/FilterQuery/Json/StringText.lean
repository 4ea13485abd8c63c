/-!
# Strings in JSON texts

A string is read in three steps: the body up to the closing quote, its escapes, and the pairs of
16-bit units that together stand for one character. Control characters have to be escaped, and a unit
of a pair cannot stand alone.
-/

namespace FilterQuery.Json

/-- The body of a string after its opening quote, and the number of characters up to and including
its closing one. A backslash takes the next character with it. -/
def splitBody? : List Char → Option (List Char × Nat)
  | [] => none
  | '"' :: _ => some ([], 1)
  | '\\' :: c :: rest => (splitBody? rest).map fun (body, n) => ('\\' :: c :: body, n + 2)
  | c :: rest => (splitBody? rest).map fun (body, n) => (c :: body, n + 1)

/-- A part of a string: a character, or a 16-bit unit given by its number. -/
inductive StringUnit where
  | char (c : Char)
  | unit (n : Nat)

/-- The value of a hexadecimal figure. -/
def hexValue? (c : Char) : Option Nat :=
  if '0' ≤ c ∧ c ≤ '9' then some (c.toNat - '0'.toNat)
  else if 'a' ≤ c ∧ c ≤ 'f' then some (c.toNat - 'a'.toNat + 10)
  else if 'A' ≤ c ∧ c ≤ 'F' then some (c.toNat - 'A'.toNat + 10)
  else none

/-- The number with four hexadecimal figures. -/
def hexUnit? (a b c d : Char) : Option Nat := do
  return ((← hexValue? a) * 16 + (← hexValue? b)) * 256 + (← hexValue? c) * 16 + (← hexValue? d)

/-- The character that a backslash before the given one stands for. -/
def escaped? (c : Char) : Option Char :=
  if c = '"' ∨ c = '\\' ∨ c = '/' then some c
  else if c = 'b' then some '\x08'
  else if c = 'f' then some '\x0c'
  else if c = 'n' then some '\n'
  else if c = 'r' then some '\r'
  else if c = 't' then some '\t'
  else none

/-- Resolves the escapes of a body. -/
def units? : List Char → Option (List StringUnit)
  | [] => some []
  | '\\' :: 'u' :: a :: b :: c :: d :: rest => do
    let n ← hexUnit? a b c d
    return .unit n :: (← units? rest)
  | '\\' :: c :: rest => do
    let c ← escaped? c
    return .char c :: (← units? rest)
  | c :: rest =>
    if c = '\\' ∨ c.toNat < 0x20 then none
    else (units? rest).map (.char c :: ·)

/-- Whether a unit is the first of a pair. -/
def isHighUnit (n : Nat) : Bool := 0xD800 ≤ n && n < 0xDC00

/-- Whether a unit is the second of a pair. -/
def isLowUnit (n : Nat) : Bool := 0xDC00 ≤ n && n < 0xE000

/-- The character that a pair of units stands for. -/
def pairChar (high low : Nat) : Char :=
  Char.ofNat (0x10000 + (high - 0xD800) * 0x400 + (low - 0xDC00))

/-- Joins pairs of units; `pending` is a first unit whose second one has to come next. -/
def joinUnits? (pending : Option Nat) : List StringUnit → Option (List Char)
  | [] => if pending.isSome then none else some []
  | .char c :: rest => if pending.isSome then none else (joinUnits? none rest).map (c :: ·)
  | .unit n :: rest =>
    match pending with
    | some high =>
      if isLowUnit n then (joinUnits? none rest).map (pairChar high n :: ·) else none
    | none =>
      if isHighUnit n then joinUnits? (some n) rest
      else if isLowUnit n then none
      else (joinUnits? none rest).map (Char.ofNat n :: ·)

/-- Reads a string after its opening quote; gives the number of characters read with it. -/
def readString? (cs : List Char) : Option (String × Nat) := do
  let (body, n) ← splitBody? cs
  let text ← joinUnits? none (← units? body)
  return (String.ofList text, n)

end FilterQuery.Json
