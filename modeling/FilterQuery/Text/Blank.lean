import FilterQuery.Text.CharClass

/-!
# Blank characters

Blanks separate the tokens of a query. They are the characters with the property `White_Space`.
-/

namespace FilterQuery.Text

/-- The characters with the property `White_Space`. -/
def blanks : CharClass where
  ranges := [(0x9, 0xD), (0x20, 0x20), (0x85, 0x85), (0xA0, 0xA0), (0x1680, 0x1680),
    (0x2000, 0x200A), (0x2028, 0x2029), (0x202F, 0x202F), (0x205F, 0x205F), (0x3000, 0x3000)]

/-- Whether a character separates tokens. -/
def isBlank (c : Char) : Bool := blanks.contains c

end FilterQuery.Text
