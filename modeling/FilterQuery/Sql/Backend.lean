import FilterQuery.Backend
import FilterQuery.Backend.Refusal
import FilterQuery.Sql
import FilterQuery.Sql.Pattern
import FilterQuery.Text.LowerCase

/-!
# From queries to SQL

The backend that turns a query into a statement. Its state is the list of values bound so far, so
placeholders are numbered in the order in which the constraints stand in the query.
-/

namespace FilterQuery.Sql

/-- How a query is turned into a statement. -/
structure Options where
  /-- The table to select from. -/
  table : String := ""
  /-- The columns to select; all of them if none is given. -/
  columns : List String := []
  /-- The paths of the permitted selectors, if not all are permitted. -/
  allowed : Option (List String) := none
  /-- Whether texts are compared in lower case and patterns match up to case. -/
  ignoreCase : Bool := false

/-- Why a query has no statement. -/
inductive Error where
  | missingTable
  | refused (reason : Refusal)
deriving DecidableEq

/-- The text that reports the error. -/
def Error.message : Error → String
  | missingTable => "No table given"
  | refused reason => reason.message

/-- The result of a check, as one of this backend. -/
def ofCheck {α : Type} : Except Refusal α → Except Error α
  | .ok a => .ok a
  | .error reason => .error (.refused reason)

/-! ## Fragments -/

/-- Names separated by commas. -/
def nameList (names : List String) : List Lexeme :=
  (names.map Lexeme.name).intersperse (.mark .comma)

/-- The start of a statement, up to its condition. -/
def selection (options : Options) : List Lexeme :=
  .mark .select :: (if options.columns.isEmpty then [.mark .star] else nameList options.columns)
    ++ [.mark .fromTable, .name options.table]

/-- The column that a selector stands for. -/
def column (s : Selector) : List Lexeme :=
  match s.association with
  | some association => [.name association, .mark .dot, .name s.field]
  | none => [.name s.field]

/-- A column in lower case, if that is asked for. -/
def lowered (lower : Bool) (lexemes : List Lexeme) : List Lexeme :=
  if lower then .mark .lower :: lexemes ++ [.mark .closeParen] else lexemes

/-- Two conditions joined by a mark. -/
def joined (mark : Mark) (left right : List Lexeme) : List Lexeme :=
  .mark .openParen :: left ++ .mark mark :: right ++ [.mark .closeParen]

/-- The placeholder of the next value after `params`. -/
def nextSlot (params : List Literal) : Lexeme := .slot (params.length + 1)

/-- The placeholders of the next `n` values after `params`, separated by commas. -/
def nextSlots (params : List Literal) (n : Nat) : List Lexeme :=
  ((List.range n).map fun i => Lexeme.slot (params.length + 1 + i)).intersperse (.mark .comma)

/-- The mark of a pattern condition. -/
def likeMark (negate ignoreCase : Bool) : Mark :=
  match negate, ignoreCase with
  | false, false => .like
  | true, false => .notLike
  | false, true => .likeAnyCase
  | true, true => .notLikeAnyCase

/-- A condition on a column and one value, and the values bound after it. -/
def withValue (lexemes : List Lexeme) (mark : Mark) (v : Literal) (params : List Literal) :
    List Lexeme × List Literal :=
  (lexemes ++ [.mark mark, nextSlot params], params ++ [v])

/-- The condition of an equality constraint, and the values bound after it. -/
def ofEquality (ignoreCase : Bool) (s : Selector) (op : Equality) (v : Literal)
    (params : List Literal) : List Lexeme × List Literal :=
  let negate := op == .notEqual
  let scalar := fun v : Literal =>
    withValue (lowered (ignoreCase && v.isText) (column s))
      (if negate then .notEqual else .equal) v params
  match v with
  | .text t =>
    if t.toList.contains '*' then
      withValue (column s) (likeMark negate ignoreCase) (.text (likePattern t)) params
    else scalar (.text t)
  | .list items =>
    (lowered (ignoreCase && items.any Literal.isText) (column s)
      ++ .mark (if negate then .isNotIn else .isIn) :: nextSlots params items.length
      ++ [.mark .closeParen], params ++ items)
  | v => scalar v

/-- The condition of a comparison, and the values bound after it. -/
def ofComparison (ignoreCase : Bool) (s : Selector) (op : Comparison) (v : Literal)
    (params : List Literal) : Except Refusal (List Lexeme × List Literal) :=
  match op.demand v with
  | .ok (.order b) =>
    .ok (withValue (lowered (ignoreCase && v.isText) (column s)) (.bound b) v params)
  | .ok (.null expected) =>
    .ok (column s ++ [.mark (if expected then .isNull else .isNotNull)], params)
  | .error reason => .error reason

/-! ## The backend -/

/-- The backend that makes statements. -/
def backend : Backend (Except Error) Options (List Lexeme) (List Literal) Statement where
  start := fun ctx =>
    if ctx.options.table.isEmpty then .error .missingTable else .ok (selection ctx.options, [])
  adapt := fun ctx s v => do
    ofCheck (s.permit ctx.options.allowed)
    return (s, if ctx.options.ignoreCase then v.map (Literal.mapText Text.lowerCase) else v)
  disjoin := fun _ l r params => .ok (joined .disjunction l r, params)
  conjoin := fun _ l r params => .ok (joined .conjunction l r, params)
  present := fun _ s params => .ok (column s ++ [.mark .isNotNull], params)
  equality := fun ctx s op v params => .ok (ofEquality ctx.options.ignoreCase s op v params)
  comparison := fun ctx s op v params => ofCheck (ofComparison ctx.options.ignoreCase s op v params)
  finish := fun _ base tree params => .ok ⟨base ++ .mark .whereHolds :: tree, params⟩

/-- The statement of a query. -/
def ofQuery (q : Query) (options : Options) : Except Error Statement := backend.run q options

end FilterQuery.Sql
