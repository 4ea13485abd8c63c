import FilterQuery.Json

/-!
# Writing JSON

A value is written compactly, without any blanks, or with one item or field to a line. Both writers
take the characters that follow the value, so that a nested value is written in one pass.
-/

namespace FilterQuery

namespace Json

/-! ## Strings -/

/-- The hexadecimal figure for a number below 16. -/
def hexFigure (n : Nat) : Char := Nat.digitChar n

/-- A character inside a quoted string. Quotes, backslashes and control characters are escaped. -/
def escapeChar (c : Char) : List Char :=
  if c = '"' then ['\\', '"']
  else if c = '\\' then ['\\', '\\']
  else if c = '\n' then ['\\', 'n']
  else if c = '\r' then ['\\', 'r']
  else if c = '\t' then ['\\', 't']
  else if c = '\x08' then ['\\', 'b']
  else if c = '\x0c' then ['\\', 'f']
  else if c.toNat < 0x20 then
    ['\\', 'u', '0', '0', hexFigure (c.toNat / 16), hexFigure (c.toNat % 16)]
  else [c]

/-- A quoted string before the characters `after`. -/
def writeString (s : String) (after : List Char) : List Char :=
  '"' :: (s.toList.flatMap escapeChar ++ '"' :: after)

/-! ## Compact form -/

mutual

/-- A value without blanks before the characters `after`. -/
def writeCompact : Json → List Char → List Char
  | null, after => "null".toList ++ after
  | bool true, after => "true".toList ++ after
  | bool false, after => "false".toList ++ after
  | number n, after => (n.write .json).toList ++ after
  | string s, after => writeString s after
  | array [], after => '[' :: ']' :: after
  | array (item :: items), after =>
    '[' :: writeCompact item (writeCompactItems items (']' :: after))
  | object [], after => '\x7b' :: '\x7d' :: after
  | object ((key, value) :: fields), after =>
    '\x7b' :: writeString key (':' :: writeCompact value
      (writeCompactFields fields ('\x7d' :: after)))

/-- The items after the first one of an array. -/
def writeCompactItems : List Json → List Char → List Char
  | [], after => after
  | item :: items, after => ',' :: writeCompact item (writeCompactItems items after)

/-- The fields after the first one of an object. -/
def writeCompactFields : List (String × Json) → List Char → List Char
  | [], after => after
  | (key, value) :: fields, after =>
    ',' :: writeString key (':' :: writeCompact value (writeCompactFields fields after))

end

/-- The compact text of a value. -/
def compact (j : Json) : String := String.ofList (j.writeCompact [])

/-! ## Indented form -/

/-- A new line at the given depth of nesting, two blanks to each level. -/
def newLine (depth : Nat) (after : List Char) : List Char :=
  '\n' :: (List.replicate (2 * depth) ' ' ++ after)

mutual

/-- A value at the given depth of nesting before the characters `after`. -/
def writeIndented (depth : Nat) : Json → List Char → List Char
  | null, after => "null".toList ++ after
  | bool true, after => "true".toList ++ after
  | bool false, after => "false".toList ++ after
  | number n, after => (n.write .json).toList ++ after
  | string s, after => writeString s after
  | array [], after => '[' :: ']' :: after
  | array (item :: items), after =>
    '[' :: newLine (depth + 1) (writeIndented (depth + 1) item
      (writeIndentedItems (depth + 1) items (newLine depth (']' :: after))))
  | object [], after => '\x7b' :: '\x7d' :: after
  | object ((key, value) :: fields), after =>
    '\x7b' :: newLine (depth + 1) (writeString key (':' :: ' ' :: writeIndented (depth + 1) value
      (writeIndentedFields (depth + 1) fields (newLine depth ('\x7d' :: after)))))

/-- The items after the first one of an array. -/
def writeIndentedItems (depth : Nat) : List Json → List Char → List Char
  | [], after => after
  | item :: items, after =>
    ',' :: newLine depth (writeIndented depth item (writeIndentedItems depth items after))

/-- The fields after the first one of an object. -/
def writeIndentedFields (depth : Nat) : List (String × Json) → List Char → List Char
  | [], after => after
  | (key, value) :: fields, after =>
    ',' :: newLine depth (writeString key (':' :: ' ' :: writeIndented depth value
      (writeIndentedFields depth fields after)))

end

/-- The text of a value with one item or field to a line. -/
def indented (j : Json) : String := String.ofList (j.writeIndented 0 [])

end Json

end FilterQuery
