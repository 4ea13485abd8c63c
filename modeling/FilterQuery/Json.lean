import FilterQuery.Number

/-!
# JSON values

The documents that a query filters, and the form in which query trees are printed. The fields of an
object are a list of pairs, because their order shows when they are written: a document keeps its
fields in ascending order of their keys, a printed tree has an order of its own.
-/

namespace FilterQuery

/-- A JSON value. -/
inductive Json where
  | null
  | bool (b : Bool)
  | number (n : Number)
  | string (s : String)
  | array (items : List Json)
  | object (fields : List (String × Json))

namespace Json

/-- Whether the value is null. -/
def isNull : Json → Bool
  | null => true
  | _ => false

/-- The value of a field; what is not an object has no fields. -/
def field? (key : String) : Json → Option Json
  | object fields => fields.lookup key
  | _ => none

/-- Puts a field into a list of fields in ascending order of their keys, in place of a field with
the same key if there is one. -/
def insertField (key : String) (value : Json) : List (String × Json) → List (String × Json)
  | [] => [(key, value)]
  | (k, v) :: rest =>
    if key < k then (key, value) :: (k, v) :: rest
    else if key = k then (key, value) :: rest
    else (k, v) :: insertField key value rest

end Json

end FilterQuery
