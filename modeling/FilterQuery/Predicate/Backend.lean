import FilterQuery.Backend
import FilterQuery.Backend.Refusal
import FilterQuery.Predicate

/-!
# From queries to predicates

The backend that turns a query into a predicate. A selector is first checked against the permitted
ones as it is written in the query, and then replaced by its alias, if it has one. A text with a star
is a glob; in a list of values a star stands for itself.
-/

namespace FilterQuery

namespace Predicate

/-- How a query is turned into a predicate. -/
structure Options where
  /-- Whether texts are equal and globs match up to case. -/
  ignoreCase : Bool := false
  /-- The paths of the permitted selectors, if not all are permitted. -/
  allowed : Option (List String) := none
  /-- The paths that stand for other paths. -/
  aliases : List (String × String) := []

/-- Why a query has no predicate. The glob of a text is not among the reasons: all of its characters
but the stars stand for themselves, and making a pattern of such a text is taken never to fail. -/
inductive Error where
  | refused (reason : Refusal)
  /-- The path that an alias stands for is not a selector. -/
  | invalidAlias (target : String)
deriving DecidableEq

/-- The text that reports the error. -/
def Error.message : Error → String
  | refused reason => reason.message
  | invalidAlias target => s!"Alias target '{target}' is not a valid selector"

/-- The result of a check, as one of this backend. -/
def ofCheck {α : Type} : Except Refusal α → Except Error α
  | .ok a => .ok a
  | .error reason => .error (.refused reason)

/-- The selector that a selector stands for. -/
def resolveAlias (aliases : List (String × String)) (s : Selector) : Except Error Selector :=
  match aliases.lookup s.path with
  | none => .ok s
  | some target =>
    match Selector.ofPath? target with
    | some s' => .ok s'
    | none => .error (.invalidAlias target)

/-- The predicate of an equality constraint. -/
def ofEquality (ignoreCase : Bool) (s : Selector) (op : Equality) (v : Literal) : Predicate :=
  let negate := op == .notEqual
  match v with
  | .text t =>
    if t.toList.contains Glob.star then .like s ⟨t.toList, ignoreCase⟩ negate
    else .equals s [.text t] negate ignoreCase
  | .list values => .equals s values negate ignoreCase
  | scalar => .equals s [scalar] negate ignoreCase

/-- The predicate of a comparison. -/
def ofComparison (s : Selector) (op : Comparison) (v : Literal) : Except Refusal Predicate :=
  match op.demand v with
  | .ok (.order bound) => .ok (.compare s bound v)
  | .ok (.null expected) => .ok (.isNull s expected)
  | .error reason => .error reason

/-- A predicate that accepts what both the base and the tree accept; a base that accepts everything
is left out. -/
def restrict (base tree : Predicate) : Predicate :=
  match base with
  | .always => tree
  | base => .all base tree

/-- The backend that makes predicates. -/
def backend : Backend (Except Error) Options Predicate Unit Predicate where
  start := fun _ => .ok (.always, ())
  adapt := fun ctx s v => do
    ofCheck (s.permit ctx.options.allowed)
    return (← resolveAlias ctx.options.aliases s, v)
  disjoin := fun _ l r state => .ok (.any l r, state)
  conjoin := fun _ l r state => .ok (.all l r, state)
  present := fun _ s state => .ok (.present s, state)
  equality := fun ctx s op v state => .ok (ofEquality ctx.options.ignoreCase s op v, state)
  comparison := fun _ s op v state => do return (← ofCheck (ofComparison s op v), state)
  finish := fun _ base tree _ => .ok (restrict base tree)

/-- The predicate of a query. -/
def ofQuery (q : Query) (options : Options) : Except Error Predicate := backend.run q options

end Predicate

end FilterQuery
