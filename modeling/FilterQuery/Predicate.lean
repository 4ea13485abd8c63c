import FilterQuery.Json
import FilterQuery.Literal
import FilterQuery.Operator
import FilterQuery.Predicate.Glob
import FilterQuery.Selector

/-!
# Predicates on documents

A predicate accepts or rejects a JSON document. A selector of a predicate points at candidates: the
field of the document, or the field of every element if the selector goes through an array. A
constraint is about these candidates, of which there may be none.
-/

namespace FilterQuery

/-- A test of JSON documents. -/
inductive Predicate where
  /-- Accepts every document. -/
  | always
  /-- One of the two accepts. -/
  | any (left right : Predicate)
  /-- Both accept. -/
  | all (left right : Predicate)
  /-- Some candidate is not null. -/
  | present (selector : Selector)
  /-- Some candidate equals one of the values or, if negated, none does. -/
  | equals (selector : Selector) (values : List Literal) (negate ignoreCase : Bool)
  /-- Some candidate is a text that the glob matches or, if negated, none is. -/
  | like (selector : Selector) (glob : Glob) (negate : Bool)
  /-- Some candidate is in the order with the value that the bound asks for. -/
  | compare (selector : Selector) (bound : Bound) (value : Literal)
  /-- Whether all candidates are null is as expected. -/
  | isNull (selector : Selector) (expected : Bool)

namespace Predicate

/-- The values that an association of a document holds: the elements of an array, or one value. -/
def parents (association : String) (doc : Json) : List Json :=
  match doc.field? association with
  | some (.array items) => items
  | some value => [value]
  | none => []

/-- The values that a selector points at. -/
def candidates (s : Selector) (doc : Json) : List Json :=
  match s.association with
  | none => (doc.field? s.field).toList
  | some association => (parents association doc).filterMap (·.field? s.field)

/-- The order of two texts by the code points of their characters. -/
def compareText (a b : String) : Ordering :=
  if a < b then .lt else if a = b then .eq else .gt

/-- Whether a candidate equals a value: both are of one kind and equal. Texts may be compared in
lower case. -/
def sameAs (ignoreCase : Bool) : Json → Literal → Bool
  | .bool a, .bool b => a == b
  | .number a, .number b => a.sameValue b
  | .string a, .text b =>
    if ignoreCase then Text.lowerCase a == Text.lowerCase b else a == b
  | _, _ => false

/-- The order of a candidate and a value, if they can be ordered. -/
def compareWith? : Json → Literal → Option Ordering
  | .number a, .number b => a.compare? b
  | .string a, .text b => some (compareText a b)
  | _, _ => none

/-- Whether a candidate is a text that the glob matches. -/
def isLike (glob : Glob) : Json → Bool
  | .string s => glob.accepts s
  | _ => false

/-- Whether the predicate accepts a document. -/
def accepts : Predicate → Json → Bool
  | always, _ => true
  | any l r, doc => l.accepts doc || r.accepts doc
  | all l r, doc => l.accepts doc && r.accepts doc
  | present s, doc => (candidates s doc).any (!·.isNull)
  | equals s values negate ignoreCase, doc =>
    ((candidates s doc).any fun c => values.any (sameAs ignoreCase c)) != negate
  | like s glob negate, doc => ((candidates s doc).any (isLike glob)) != negate
  | compare s bound value, doc =>
    (candidates s doc).any fun c => (compareWith? c value).any bound.accepts
  | isNull s expected, doc => ((candidates s doc).all (·.isNull)) == expected

/-- The documents that the predicate accepts, in their order. -/
def filter (p : Predicate) (docs : List Json) : List Json := docs.filter p.accepts

end Predicate

end FilterQuery
