import FilterQuery.Literal
import FilterQuery.Operator
import FilterQuery.Selector

/-!
# Queries

A query is a tree of constraints joined by "or" and "and". Groups of a written query decide how the
tree nests and leave no nodes of their own.
-/

namespace FilterQuery

/-- A filter query. -/
inductive Query where
  /-- At least one of the two holds. -/
  | or (left right : Query)
  /-- Both hold. -/
  | and (left right : Query)
  /-- The selector is present and not null. -/
  | present (selector : Selector)
  /-- The selector equals the value or one of a list of values, or it does not. -/
  | equality (selector : Selector) (op : Equality) (value : Literal)
  /-- The selector and the value satisfy a comparison. -/
  | comparison (selector : Selector) (op : Comparison) (value : Literal)
deriving DecidableEq

namespace Query

/-- The selector of a constraint; a joined query has none. -/
def selector? : Query → Option Selector
  | or _ _ => none
  | and _ _ => none
  | present s => some s
  | equality s _ _ => some s
  | comparison s _ _ => some s

/-- The height of the tree, where a constraint has height one. -/
def depth : Query → Nat
  | or l r => 1 + max l.depth r.depth
  | and l r => 1 + max l.depth r.depth
  | _ => 1

theorem depth_pos (q : Query) : 1 ≤ q.depth := by
  cases q <;> simp [depth]

/-- The selectors of all constraints, from left to right. -/
def selectors : Query → List Selector
  | or l r => l.selectors ++ r.selectors
  | and l r => l.selectors ++ r.selectors
  | present s => [s]
  | equality s _ _ => [s]
  | comparison s _ _ => [s]

/-- A tree is no higher than it has constraints. -/
theorem depth_le_length_selectors (q : Query) : q.depth ≤ q.selectors.length := by
  induction q with
  | or l r ihl ihr | and l r ihl ihr =>
    have hl := l.depth_pos
    have hr := r.depth_pos
    simp only [depth, selectors, List.length_append]
    omega
  | present | equality | comparison => exact Nat.le_refl 1

/-- Equality of queries up to the equality of their values. -/
def equals : Query → Query → Bool
  | or l r, or l' r' => l.equals l' && r.equals r'
  | and l r, and l' r' => l.equals l' && r.equals r'
  | present s, present s' => s == s'
  | equality s op v, equality s' op' v' => s == s' && op == op' && v.equals v'
  | comparison s op v, comparison s' op' v' => s == s' && op == op' && v.equals v'
  | _, _ => false

end Query

end FilterQuery
