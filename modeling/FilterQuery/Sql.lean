import FilterQuery.Literal
import FilterQuery.Operator

/-!
# SQL statements

A statement is a list of lexemes with the values of its placeholders. Lexemes are the fixed words and
signs of the language, quoted identifiers, and placeholders, so what comes from a query reaches the
text only inside quotes or not at all. The text is made from the lexemes at the very end.
-/

namespace FilterQuery.Sql

/-- The fixed words and signs of a statement. -/
inductive Mark where
  | select
  | fromTable
  | whereHolds
  | conjunction
  | disjunction
  | isNull
  | isNotNull
  /-- The start of a list of values. -/
  | isIn
  | isNotIn
  | like
  | notLike
  | likeAnyCase
  | notLikeAnyCase
  /-- The start of a term in lower case. -/
  | lower
  | equal
  | notEqual
  | bound (b : Bound)
  | openParen
  | closeParen
  | comma
  | dot
  | star
deriving DecidableEq

/-- The text of a mark, with the blanks around it. -/
def Mark.text : Mark → String
  | select => "SELECT "
  | fromTable => " FROM "
  | whereHolds => " WHERE "
  | conjunction => " AND "
  | disjunction => " OR "
  | isNull => " IS NULL"
  | isNotNull => " IS NOT NULL"
  | isIn => " IN ("
  | isNotIn => " NOT IN ("
  | like => " LIKE "
  | notLike => " NOT LIKE "
  | likeAnyCase => " ILIKE "
  | notLikeAnyCase => " NOT ILIKE "
  | lower => "LOWER("
  | equal => " = "
  | notEqual => " <> "
  | bound .greater => " > "
  | bound .less => " < "
  | bound .greaterOrEqual => " >= "
  | bound .lessOrEqual => " <= "
  | openParen => "("
  | closeParen => ")"
  | comma => ", "
  | dot => "."
  | star => "*"

/-- A unit of a statement's text. -/
inductive Lexeme where
  | mark (m : Mark)
  /-- An identifier, which may be any text. -/
  | name (identifier : String)
  /-- The placeholder for a value, by its number from one on. -/
  | slot (number : Nat)
deriving DecidableEq

/-- A character inside a quoted identifier; a quote is written twice. -/
def quoteChar (c : Char) : List Char := if c = '"' then ['"', '"'] else [c]

/-- An identifier in quotes. -/
def quoteName (identifier : String) : List Char :=
  '"' :: (identifier.toList.flatMap quoteChar ++ ['"'])

/-- The characters of a lexeme. -/
def Lexeme.chars : Lexeme → List Char
  | mark m => m.text.toList
  | name identifier => quoteName identifier
  | slot number => '$' :: Nat.toDigits 10 number

/-- The text of a list of lexemes. -/
def render (lexemes : List Lexeme) : String := String.ofList (lexemes.flatMap Lexeme.chars)

/-- A statement with the values of its placeholders. -/
structure Statement where
  lexemes : List Lexeme
  params : List Literal
deriving DecidableEq

/-- The text of a statement. -/
def Statement.text (s : Statement) : String := render s.lexemes

end FilterQuery.Sql
