/-!
# Operators

A constraint with a value has an equality operator, which also takes a list of values, or a
comparison operator, which is written as a name between two equals signs. Four of the names bound
the order of the field and the value, one tests for null, and any other name is kept for a backend
to interpret.
-/

namespace FilterQuery

/-- The operators that accept a list of values. -/
inductive Equality where
  | equal
  | notEqual
deriving DecidableEq

namespace Equality

/-- The operator as it is written in a query. -/
def symbol : Equality → String
  | equal => "=="
  | notEqual => "!="

end Equality

/-- Which orders of a field and a value satisfy an order constraint. -/
inductive Bound where
  | greater
  | less
  | greaterOrEqual
  | lessOrEqual
deriving DecidableEq

namespace Bound

/-- Whether a field that compares with the value in the given order satisfies the bound. -/
def accepts : Bound → Ordering → Bool
  | greater, o => o == .gt
  | less, o => o == .lt
  | greaterOrEqual, o => o != .lt
  | lessOrEqual, o => o != .gt

/-- The name of the bound as an operator. -/
def name : Bound → String
  | greater => "gt"
  | less => "lt"
  | greaterOrEqual => "ge"
  | lessOrEqual => "le"

end Bound

/-- The operators written as a name between equals signs. -/
inductive Comparison where
  | bound (b : Bound)
  | isNull
  | custom (name : String)
deriving DecidableEq

namespace Comparison

/-- The operator with the given name. -/
def ofName (name : String) : Comparison :=
  if name = "gt" then bound .greater
  else if name = "lt" then bound .less
  else if name = "ge" then bound .greaterOrEqual
  else if name = "le" then bound .lessOrEqual
  else if name = "isnull" then isNull
  else custom name

/-- The name between the equals signs. -/
def name : Comparison → String
  | bound b => b.name
  | isNull => "isnull"
  | custom name => name

/-- The operator as it is written in a query. -/
def symbol (op : Comparison) : String := "=" ++ op.name ++ "="

/-- An operator found by a name has this name. -/
theorem name_ofName (n : String) : (ofName n).name = n := by
  unfold ofName
  repeat' split
  all_goals simp_all [name, Bound.name]

end Comparison

end FilterQuery
