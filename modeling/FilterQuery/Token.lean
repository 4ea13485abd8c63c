import FilterQuery.Operator

/-!
# Tokens

The words of the query language, each with the offset of its first character.
-/

namespace FilterQuery

/-- A token of a query. -/
inductive Token where
  /-- A bare run of characters: a selector or a value. -/
  | word (text : String)
  /-- A quoted text, without its quotes and escapes. -/
  | quoted (text : String)
  /-- `==` or `!=`. -/
  | equality (op : Equality)
  /-- A name between two equals signs. -/
  | comparison (name : String)
  /-- `;`, which joins constraints that must all hold. -/
  | semicolon
  /-- `,`, which joins alternatives and the items of a list. -/
  | comma
  | openParen
  | closeParen
  | endOfInput
deriving DecidableEq

namespace Token

/-- How messages name a token. -/
def describe : Token → String
  | word text => s!"'{text}'"
  | quoted text => s!"quoted string '{text}'"
  | equality op => s!"'{op.symbol}'"
  | comparison name => s!"'={name}='"
  | semicolon => "';'"
  | comma => "','"
  | openParen => "'('"
  | closeParen => "')'"
  | endOfInput => "end of input"

/-- Whether a token is a value. -/
def isLiteral : Token → Bool
  | word _ => true
  | quoted _ => true
  | _ => false

end Token

/-- A token with the offset of its first character. -/
structure PlacedToken where
  token : Token
  offset : Nat
deriving DecidableEq

end FilterQuery
