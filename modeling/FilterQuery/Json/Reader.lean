import FilterQuery.Json.NumberText
import FilterQuery.Json.StringText

/-!
# Reading JSON

A text is read lexeme by lexeme by a machine that keeps the arrays and objects that are open. The
grammar is taken strictly, at most 127 containers may be open at once, and of several fields of one
object with the same key the last one counts.
-/

namespace FilterQuery.Json

/-! ## Lexemes -/

/-- A unit of a JSON text. -/
inductive Lexeme where
  | openArray
  | closeArray
  | openObject
  | closeObject
  | comma
  | colon
  | string (s : String)
  /-- A value that is neither a string nor a container. -/
  | scalar (value : Json)

/-- Whether a character may stand between lexemes. -/
def isSpace (c : Char) : Bool := c == ' ' || c == '\t' || c == '\n' || c == '\r'

/-- Whether a character may stand in a number. -/
def isNumberChar (c : Char) : Bool :=
  c.isDigit || c == '-' || c == '+' || c == '.' || c == 'e' || c == 'E'

/-- The value with the given name. -/
def named? (name : List Char) : Option Json :=
  if name = "null".toList then some null
  else if name = "true".toList then some (bool true)
  else if name = "false".toList then some (bool false)
  else none

/-- The lexeme that starts with `c`, and the number of characters that it takes after `c`. -/
def scan? (c : Char) (rest : List Char) : Option (Lexeme × Nat) :=
  if c = '[' then some (.openArray, 0)
  else if c = ']' then some (.closeArray, 0)
  else if c = '\x7b' then some (.openObject, 0)
  else if c = '\x7d' then some (.closeObject, 0)
  else if c = ',' then some (.comma, 0)
  else if c = ':' then some (.colon, 0)
  else if c = '"' then (readString? rest).map fun (s, n) => (.string s, n)
  else if c.isDigit || c == '-' then
    let more := rest.takeWhile isNumberChar
    ((NumberText.ofChars? (c :: more)).bind NumberText.value?).map fun n =>
      (.scalar (.number n), more.length)
  else
    let more := rest.takeWhile Char.isAlpha
    (named? (c :: more)).map fun j => (.scalar j, more.length)

/-! ## The machine -/

/-- A container that waits for the value of one of its items or fields. -/
inductive Frame where
  /-- An array with the items before this one, the latest first. -/
  | item (before : List Json)
  /-- An object with the fields before this one, and the key of this one. -/
  | member (before : List (String × Json)) (key : String)

/-- What may come next. -/
inductive Await where
  /-- A value. -/
  | value
  /-- The first item of an array, or its end. -/
  | firstItem
  /-- The first key of an object, or its end. -/
  | firstKey
  /-- Another key of an object with the given fields. -/
  | key (before : List (String × Json))
  /-- The colon after a key. -/
  | colon (before : List (String × Json)) (key : String)
  /-- What can follow a complete value. -/
  | follow (value : Json)

/-- The state of the reader between two lexemes. -/
structure Reader where
  await : Await
  /-- The containers around, the innermost first. -/
  frames : List Frame

namespace Reader

/-- The reader before the first lexeme. -/
def start : Reader := ⟨.value, []⟩

/-- How many containers may be open at once. -/
def maxDepth : Nat := 127

/-- The next state after a lexeme that starts a value. -/
def stepValue? (r : Reader) : Lexeme → Option Reader
  | .scalar j => some { r with await := .follow j }
  | .string s => some { r with await := .follow (.string s) }
  | .openArray =>
    if r.frames.length < maxDepth then some ⟨.firstItem, .item [] :: r.frames⟩ else none
  | .openObject =>
    if r.frames.length < maxDepth then some { r with await := .firstKey } else none
  | _ => none

/-- The next state after a lexeme that follows the complete value `j`. -/
def stepFollow? (r : Reader) (j : Json) (l : Lexeme) : Option Reader :=
  match l, r.frames with
  | .comma, .item before :: frames => some ⟨.value, .item (j :: before) :: frames⟩
  | .closeArray, .item before :: frames => some ⟨.follow (.array (j :: before).reverse), frames⟩
  | .comma, .member before key :: frames => some ⟨.key (insertField key j before), frames⟩
  | .closeObject, .member before key :: frames =>
    some ⟨.follow (.object (insertField key j before)), frames⟩
  | _, _ => none

/-- The next state after a lexeme. -/
def step? (r : Reader) (l : Lexeme) : Option Reader :=
  match r.await, l with
  | .value, l => r.stepValue? l
  | .firstItem, .closeArray => some ⟨.follow (.array []), r.frames.tail⟩
  | .firstItem, l => r.stepValue? l
  | .firstKey, .closeObject => some { r with await := .follow (.object []) }
  | .firstKey, .string key => some { r with await := .colon [] key }
  | .key before, .string key => some { r with await := .colon before key }
  | .colon before key, .colon => some ⟨.value, .member before key :: r.frames⟩
  | .follow j, l => r.stepFollow? j l
  | _, _ => none

/-- The value read at the end of a text. -/
def finish? (r : Reader) : Option Json :=
  match r.await, r.frames with
  | .follow j, [] => some j
  | _, _ => none

/-- Reads the rest of a text. -/
def run? (r : Reader) (cs : List Char) : Option Json :=
  match cs with
  | [] => r.finish?
  | c :: rest =>
    if isSpace c then r.run? rest
    else match scan? c rest with
      | none => none
      | some (l, more) =>
        match r.step? l with
        | none => none
        | some next => next.run? (rest.drop more)
termination_by cs.length
decreasing_by all_goals simp only [List.length_cons, List.length_drop]; omega

end Reader

/-- Reads a text as a JSON value. -/
def read? (text : String) : Option Json := Reader.start.run? text.toList

end FilterQuery.Json
