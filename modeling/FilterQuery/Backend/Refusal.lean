import FilterQuery.Query

/-!
# Constraints that no backend accepts

Backends may restrict the selectors of a query to a list of permitted ones, and they know what a
comparison can mean: an order constraint on a number or a text, or a test for null with a truth
value. Everything else is refused with a reason.
-/

namespace FilterQuery

/-- Why a constraint is refused. -/
inductive Refusal where
  /-- The selector, given by its path, is not on the list of permitted ones. -/
  | selectorNotPermitted (path : String)
  /-- The operator with this name has no meaning. -/
  | unsupportedOperator (name : String)
  /-- The operator cannot be used with a value of this kind. -/
  | incompatibleValue (op : Comparison) (found : Literal.Kind)
deriving DecidableEq

namespace Refusal

/-- The text that reports the refusal. -/
def message : Refusal → String
  | selectorNotPermitted path => s!"Selector '{path}' is not permitted"
  | unsupportedOperator name => s!"Unsupported operator '{name}'"
  | incompatibleValue op found =>
    s!"Operator '{op.symbol}' cannot be used with a {found.name} value"

end Refusal

/-- Checks a selector against the paths that are permitted, if only some are. -/
def Selector.permit (allowed : Option (List String)) (s : Selector) : Except Refusal Unit :=
  match allowed with
  | none => .ok ()
  | some paths => if paths.contains s.path then .ok () else .error (.selectorNotPermitted s.path)

/-- What a comparison with a value demands of a field. -/
inductive Demand where
  /-- To be in an order with the value. -/
  | order (b : Bound)
  /-- To be null, or not to be. -/
  | null (expected : Bool)
deriving DecidableEq

/-- What a comparison demands, or why it demands nothing. -/
def Comparison.demand (op : Comparison) (v : Literal) : Except Refusal Demand :=
  match op with
  | .bound b =>
    if v.isOrdered then .ok (.order b) else .error (.incompatibleValue op v.kind)
  | .isNull =>
    match v.toBool? with
    | some expected => .ok (.null expected)
    | none => .error (.incompatibleValue op v.kind)
  | .custom name => .error (.unsupportedOperator name)

end FilterQuery
