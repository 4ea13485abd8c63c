/-!
# Syntax errors

What can be wrong with a query, with the offset of the character where the offending part starts.
-/

namespace FilterQuery

/-- The ways in which a text fails to be a query; each has a position, counted in characters. -/
inductive SyntaxError where
  /-- A token, described by `found`, that cannot stand here. -/
  | unexpected (found : String) (position : Nat)
  /-- A quoted text that is never closed. -/
  | unterminatedText (position : Nat)
  /-- A parenthesis that is never closed. -/
  | unclosedGroup (position : Nat)
  /-- An operator with no selector before it. -/
  | emptySelector (position : Nat)
  /-- A word in place of a selector that is not a path. -/
  | invalidSelector (word : String) (position : Nat)
  /-- A list of values after a comparison operator. -/
  | listInComparison (operator : String) (position : Nat)
  /-- A group nested deeper than the limit. -/
  | nestingTooDeep (limit : Nat) (position : Nat)
  /-- A constraint beyond the limit. -/
  | tooManyTerms (limit : Nat) (position : Nat)
deriving DecidableEq

namespace SyntaxError

/-- The offset of the offending part. -/
def position : SyntaxError → Nat
  | unexpected _ p => p
  | unterminatedText p => p
  | unclosedGroup p => p
  | emptySelector p => p
  | invalidSelector _ p => p
  | listInComparison _ p => p
  | nestingTooDeep _ p => p
  | tooManyTerms _ p => p

/-- The text that reports the error. -/
def message : SyntaxError → String
  | unexpected found p => s!"Unexpected {found} at position {p}"
  | unterminatedText p => s!"Unterminated string starting at position {p}"
  | unclosedGroup p =>
    s!"Unbalanced parentheses: group opened at position {p} is never closed"
  | emptySelector p => s!"Empty selector before operator at position {p}"
  | invalidSelector word p => s!"Invalid selector '{word}' at position {p}"
  | listInComparison operator p =>
    s!"Value lists are only allowed with '==' and '!=', not with '{operator}' (position {p})"
  | nestingTooDeep limit p =>
    s!"Expression nesting exceeds the limit of {limit} at position {p}"
  | tooManyTerms limit p => s!"Query has more than {limit} constraints (position {p})"

end SyntaxError

end FilterQuery
