/-!
# Patterns of the LIKE operator

In a LIKE pattern `%` stands for any run of characters and `_` for any one character, and a backslash
takes the next character literally. A text with stars becomes such a pattern: the stars turn into
`%`, and the three special characters are escaped.
-/

namespace FilterQuery.Sql

/-- A character of a text with stars, as a part of a pattern. -/
def patternChar (c : Char) : List Char :=
  if c = '*' then ['%']
  else if c = '%' ∨ c = '_' ∨ c = '\\' then ['\\', c]
  else [c]

/-- The pattern for a text with stars. -/
def likePattern (s : String) : String := String.ofList (s.toList.flatMap patternChar)

end FilterQuery.Sql
