import FilterQuery.Number

/-!
# Literals

The value of a constraint: a truth value, a number, a text, or a list of values. A bare word is
typed by trial: `true` and `false` are truth values, figures with an optional sign are an integer,
figures with a point inside are a floating-point number, and everything else is a text, as is a
number that is too large for its type.
-/

namespace FilterQuery

/-- A typed value of a query. -/
inductive Literal where
  | bool (b : Bool)
  | number (n : Number)
  | text (s : String)
  | list (items : List Literal)

namespace Literal

/-! ## Decidable equality -/

mutual

/-- Decides whether two literals are identical. -/
def decEq : (a b : Literal) → Decidable (a = b)
  | bool a, bool b => if h : a = b then isTrue (by rw [h]) else isFalse (by simp [h])
  | number a, number b => if h : a = b then isTrue (by rw [h]) else isFalse (by simp [h])
  | text a, text b => if h : a = b then isTrue (by rw [h]) else isFalse (by simp [h])
  | list as, list bs =>
    match decEqItems as bs with
    | isTrue h => isTrue (by rw [h])
    | isFalse h => isFalse (by simp [h])
  | bool _, number _ => isFalse (by simp)
  | bool _, text _ => isFalse (by simp)
  | bool _, list _ => isFalse (by simp)
  | number _, bool _ => isFalse (by simp)
  | number _, text _ => isFalse (by simp)
  | number _, list _ => isFalse (by simp)
  | text _, bool _ => isFalse (by simp)
  | text _, number _ => isFalse (by simp)
  | text _, list _ => isFalse (by simp)
  | list _, bool _ => isFalse (by simp)
  | list _, number _ => isFalse (by simp)
  | list _, text _ => isFalse (by simp)

/-- Decides whether two lists of literals are identical. -/
def decEqItems : (as bs : List Literal) → Decidable (as = bs)
  | [], [] => isTrue rfl
  | [], _ :: _ => isFalse (by simp)
  | _ :: _, [] => isFalse (by simp)
  | a :: as, b :: bs =>
    match decEq a b, decEqItems as bs with
    | isTrue h, isTrue hs => isTrue (by rw [h, hs])
    | isFalse h, _ => isFalse (by simp [h])
    | _, isFalse hs => isFalse (by simp [hs])

end

instance : DecidableEq Literal := decEq

/-! ## Kinds and views -/

/-- The kinds of literals that messages tell apart. -/
inductive Kind where
  | boolean
  | integer
  | float
  | string
  | list
deriving DecidableEq

/-- The name of a kind in messages. -/
def Kind.name : Kind → String
  | boolean => "boolean"
  | integer => "integer"
  | float => "float"
  | string => "string"
  | list => "list"

/-- The kind of a literal. -/
def kind : Literal → Kind
  | bool _ => .boolean
  | number (.integer _) => .integer
  | number (.float _) => .float
  | text _ => .string
  | list _ => .list

/-- The truth value that the literal is, if it is one. -/
def toBool? : Literal → Option Bool
  | bool b => some b
  | _ => none

/-- Whether the literal is a text. -/
def isText : Literal → Bool
  | text _ => true
  | _ => false

/-- Whether the literal can be ordered: numbers and texts can. -/
def isOrdered : Literal → Bool
  | number _ => true
  | text _ => true
  | _ => false

mutual

/-- Equality of the values: literals of one kind, where the two floating-point zeros are equal. -/
def equals : Literal → Literal → Bool
  | bool a, bool b => a == b
  | number a, number b => a.equals b
  | text a, text b => a == b
  | list as, list bs => equalsItems as bs
  | _, _ => false

/-- Equality of two lists, item by item. -/
def equalsItems : List Literal → List Literal → Bool
  | [], [] => true
  | a :: as, b :: bs => equals a b && equalsItems as bs
  | _, _ => false

end

mutual

/-- The literal with every text in it, in lists as well, replaced by its image under `f`. -/
def mapText (f : String → String) : Literal → Literal
  | text s => text (f s)
  | list items => list (mapTextItems f items)
  | other => other

/-- The items with every text in them replaced by its image under `f`. -/
def mapTextItems (f : String → String) : List Literal → List Literal
  | [] => []
  | a :: as => mapText f a :: mapTextItems f as

end

/-- The items of a list are changed one by one. -/
theorem mapTextItems_eq_map (f : String → String) (items : List Literal) :
    mapTextItems f items = items.map (mapText f) := by
  induction items with
  | nil => rw [mapTextItems, List.map_nil]
  | cons a as ih => rw [mapTextItems, ih, List.map_cons]

/-! ## Typing of words -/

/-- The number that a list of figures denotes. -/
def readFigures (figures : List Char) : Nat :=
  figures.foldl (fun n c => 10 * n + (c.toNat - '0'.toNat)) 0

/-- Splits a sign off a word: whether it is a minus, and the rest. -/
def splitSign : List Char → Bool × List Char
  | '+' :: rest => (false, rest)
  | '-' :: rest => (true, rest)
  | rest => (false, rest)

/-- The least integer that a word can denote; integers have 64 bits. -/
def leastInteger : Int := -0x8000000000000000

/-- The greatest integer that a word can denote. -/
def greatestInteger : Int := 0x7FFFFFFFFFFFFFFF

/-- The number that a word denotes, if it is a number that its type can hold. -/
def readNumber? (word : List Char) : Option Number :=
  let (negative, body) := splitSign word
  let whole := body.takeWhile Char.isDigit
  if whole.isEmpty then none
  else match body.dropWhile Char.isDigit with
    | [] =>
      let n : Int := if negative then -(readFigures whole : Int) else readFigures whole
      if leastInteger ≤ n ∧ n ≤ greatestInteger then some (.integer n) else none
    | '.' :: fraction =>
      if !fraction.isEmpty && fraction.all Char.isDigit then
        let x := Binary64.ofScientific negative (readFigures (whole ++ fraction))
          (-(fraction.length : Int))
        if x.isFinite then some (.float x) else none
      else none
    | _ => none

/-- The value of a bare word. -/
def ofWord (word : String) : Literal :=
  if word = "true" then bool true
  else if word = "false" then bool false
  else match readNumber? word.toList with
    | some n => number n
    | none => text word

end Literal

end FilterQuery
