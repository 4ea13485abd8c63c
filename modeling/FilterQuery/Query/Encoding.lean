import FilterQuery.Json
import FilterQuery.Query

/-!
# Query trees as JSON

A node is an object with its type first. Literals are written as the JSON values they resemble.
-/

namespace FilterQuery

mutual

/-- A literal as a JSON value. -/
def Literal.toJson : Literal → Json
  | .bool b => .bool b
  | .number n => .number n
  | .text s => .string s
  | .list items => .array (Literal.toJsonItems items)

/-- The items of a list as JSON values. -/
def Literal.toJsonItems : List Literal → List Json
  | [] => []
  | item :: items => item.toJson :: Literal.toJsonItems items

end

/-- A selector as a JSON object. -/
def Selector.toJson (s : Selector) : Json :=
  .object [("association", match s.association with
      | some association => .string association
      | none => .null),
    ("field", .string s.field)]

/-- An equality operator as a JSON string. -/
def Equality.toJson : Equality → Json
  | .equal => .string "equal"
  | .notEqual => .string "not_equal"

/-- The name of a bound in printed trees. -/
def Bound.label : Bound → String
  | .greater => "greater_than"
  | .less => "less_than"
  | .greaterOrEqual => "greater_or_equal"
  | .lessOrEqual => "less_or_equal"

/-- A comparison operator as a JSON string; a custom one as an object, so that its name is never
mistaken for one of the others. -/
def Comparison.toJson : Comparison → Json
  | .bound b => .string b.label
  | .isNull => .string "is_null"
  | .custom name => .object [("custom", .string name)]

/-- A query as a JSON object. -/
def Query.toJson : Query → Json
  | .or l r => .object [("type", .string "or"), ("left", l.toJson), ("right", r.toJson)]
  | .and l r => .object [("type", .string "and"), ("left", l.toJson), ("right", r.toJson)]
  | .present s => .object [("type", .string "constraint"), ("selector", s.toJson)]
  | .equality s op v =>
    .object [("type", .string "constraint_with_value"), ("selector", s.toJson),
      ("op", op.toJson), ("value", v.toJson)]
  | .comparison s op v =>
    .object [("type", .string "constraint_with_comparison"), ("selector", s.toJson),
      ("op", op.toJson), ("value", v.toJson)]

end FilterQuery
