import FilterQuery.Predicate.Backend

/-!
# The predicate of a query, node by node

The predicate backend keeps no state and never looks at the whole query, so the predicate of a query
is made from the predicates of its operands. `compile` says so, with one equation for each kind of
node, and `ofQuery_eq_compile` makes it the meaning of the backend: nothing after this module has to
open the walk. `Compiles` lists how a query can have a predicate, with one rule for each kind of
node, for arguments that go through both trees at once.
-/

namespace FilterQuery.Predicate

/-- The selector by which a constraint finds its candidates: a permitted one, or its alias. -/
def Options.resolve (options : Options) (s : Selector) : Except Error Selector := do
  ofCheck (s.permit options.allowed)
  resolveAlias options.aliases s

/-- The predicate of a query, made from the predicates of its operands. -/
def compile (options : Options) : Query → Except Error Predicate
  | .or l r => do return .any (← compile options l) (← compile options r)
  | .and l r => do return .all (← compile options l) (← compile options r)
  | .present s => do return .present (← options.resolve s)
  | .equality s op v => do return ofEquality options.ignoreCase (← options.resolve s) op v
  | .comparison s op v => do
    let s ← options.resolve s
    ofCheck (ofComparison s op v)

/-- Before a constraint is turned into a predicate, its selector is resolved and its value is left
alone. So the hook of this backend depends on the options and on the selector only. -/
theorem adapt_eq_resolve (ctx : Context Options) (s : Selector) (v : Option Literal) :
    backend.adapt ctx s v = (do return (← ctx.options.resolve s, v)) := by
  show (do ofCheck (s.permit ctx.options.allowed); return (← resolveAlias _ s, v)) = _
  rw [Options.resolve]
  cases ofCheck (s.permit ctx.options.allowed) <;> rfl

/-- The walk over a subtree is its `compile`. The state of this backend is empty and the root of the
context is never looked at, so the same equation serves every subtree of every query. -/
theorem walk_eq_compile (root : Query) (options : Options) (q : Query) :
    backend.walk ⟨root, options⟩ q () = (do return (← compile options q, ())) := by
  induction q with
  | or l r ihl ihr
  | and l r ihl ihr =>
    rw [Backend.walk, compile, ihl]
    cases compile options l with
    | error e => rfl
    | ok left =>
      -- the state that the right operand starts with is again the empty one
      show (backend.walk _ r () >>= _) = _
      rw [ihr]
      cases compile options r <;> rfl
  -- a constraint is its hook, followed by what the hook was asked for
  | present s =>
    rw [Backend.walk, compile, adapt_eq_resolve]
    cases options.resolve s <;> rfl
  | equality s op v =>
    rw [Backend.walk, compile, Backend.adaptValue, adapt_eq_resolve]
    cases options.resolve s <;> rfl
  | comparison s op v =>
    rw [Backend.walk, compile, Backend.adaptValue, adapt_eq_resolve]
    cases options.resolve s <;> rfl

/-- The predicate of a query is its `compile`. What comes before and after the walk adds nothing:
the base accepts everything, and such a base is left out. -/
theorem ofQuery_eq_compile (q : Query) (options : Options) :
    ofQuery q options = compile options q := by
  -- start and finish are evaluated, which leaves the walk
  show (do
    let tree ← backend.walk ⟨q, options⟩ q ()
    (Except.ok (restrict .always tree.1) : Except Error Predicate)) = _
  rw [walk_eq_compile]
  cases compile options q <;> rfl

/-- The query has the predicate. -/
inductive Compiles (options : Options) : Query → Predicate → Prop where
  | or {l r : Query} {left right : Predicate} (hl : Compiles options l left)
      (hr : Compiles options r right) : Compiles options (.or l r) (.any left right)
  | and {l r : Query} {left right : Predicate} (hl : Compiles options l left)
      (hr : Compiles options r right) : Compiles options (.and l r) (.all left right)
  | present {s s' : Selector} (hs : options.resolve s = .ok s') :
      Compiles options (.present s) (.present s')
  | equality {s s' : Selector} {op : Equality} {v : Literal} (hs : options.resolve s = .ok s') :
      Compiles options (.equality s op v) (ofEquality options.ignoreCase s' op v)
  | comparison {s s' : Selector} {op : Comparison} {v : Literal} {p : Predicate}
      (hs : options.resolve s = .ok s') (hv : ofComparison s' op v = .ok p) :
      Compiles options (.comparison s op v) p

/-- Soundness of the rules: a predicate that is computed has a derivation. Each node is one or two
steps that must all succeed, and the rule of the node asks for exactly their results. -/
theorem compiles_of_compile {options : Options} {q : Query} {p : Predicate}
    (h : compile options q = .ok p) : Compiles options q p := by
  induction q generalizing p with
  | or l r ihl ihr =>
    obtain ⟨left, hl, h⟩ := exists_of_bind_eq_ok h
    obtain ⟨right, hr, h⟩ := exists_of_bind_eq_ok h
    cases h
    exact .or (ihl hl) (ihr hr)
  | and l r ihl ihr =>
    obtain ⟨left, hl, h⟩ := exists_of_bind_eq_ok h
    obtain ⟨right, hr, h⟩ := exists_of_bind_eq_ok h
    cases h
    exact .and (ihl hl) (ihr hr)
  | present s =>
    obtain ⟨s', hs, h⟩ := exists_of_bind_eq_ok h
    cases h
    exact .present hs
  | equality s op v =>
    obtain ⟨s', hs, h⟩ := exists_of_bind_eq_ok h
    cases h
    exact .equality hs
  | comparison s op v =>
    obtain ⟨s', hs, h⟩ := exists_of_bind_eq_ok h
    -- the one node with a second step that may fail
    refine .comparison hs ?_
    cases hv : ofComparison s' op v with
    | error reason => rw [hv] at h; cases h
    | ok p => rw [hv] at h; cases h; rfl

/-- Completeness of the rules: a predicate that has a derivation is the one that is computed, so a
query has at most one. -/
theorem compile_of_compiles {options : Options} {q : Query} {p : Predicate}
    (h : Compiles options q p) : compile options q = .ok p := by
  induction h with
  | or _ _ ihl ihr => rw [compile, ihl, ihr]; rfl
  | and _ _ ihl ihr => rw [compile, ihl, ihr]; rfl
  | present hs => rw [compile, hs]; rfl
  | equality hs => rw [compile, hs]; rfl
  | @comparison s s' op v p hs hv =>
    rw [compile, hs]
    show ofCheck (ofComparison s' op v) = .ok p
    rw [hv]
    rfl

/-- The rules describe the backend. With this, a statement about the predicate of a query is an
induction over `Compiles`. -/
theorem ofQuery_eq_ok_iff {q : Query} {options : Options} {p : Predicate} :
    ofQuery q options = .ok p ↔ Compiles options q p := by
  rw [ofQuery_eq_compile]
  exact ⟨compiles_of_compile, compile_of_compiles⟩

/-! ## Which predicates a node has -/

section

variable {options : Options} {p : Predicate}

/-- A disjunction has a predicate if both of its operands have one; the iffs that follow say the
same of the other nodes, as rewriting rules for inductions over a query. -/
theorem compiles_or_iff {l r : Query} :
    Compiles options (.or l r) p ↔
      ∃ left right, Compiles options l left ∧ Compiles options r right ∧ p = .any left right := by
  constructor
  · rintro ⟨⟩
    exact ⟨_, _, ‹_›, ‹_›, rfl⟩
  · rintro ⟨left, right, hl, hr, rfl⟩
    exact .or hl hr

theorem compiles_and_iff {l r : Query} :
    Compiles options (.and l r) p ↔
      ∃ left right, Compiles options l left ∧ Compiles options r right ∧ p = .all left right := by
  constructor
  · rintro ⟨⟩
    exact ⟨_, _, ‹_›, ‹_›, rfl⟩
  · rintro ⟨left, right, hl, hr, rfl⟩
    exact .and hl hr

theorem compiles_present_iff {s : Selector} :
    Compiles options (.present s) p ↔ ∃ s', options.resolve s = .ok s' ∧ p = .present s' := by
  constructor
  · rintro ⟨⟩
    exact ⟨_, ‹_›, rfl⟩
  · rintro ⟨s', hs, rfl⟩
    exact .present hs

/-- An equality constraint fails for its selector only, never for its value. Each kind of value has
a predicate, a list of lists included. -/
theorem compiles_equality_iff {s : Selector} {op : Equality} {v : Literal} :
    Compiles options (.equality s op v) p ↔
      ∃ s', options.resolve s = .ok s' ∧ p = ofEquality options.ignoreCase s' op v := by
  constructor
  · rintro ⟨⟩
    exact ⟨_, ‹_›, rfl⟩
  · rintro ⟨s', hs, rfl⟩
    exact .equality hs

/-- A comparison can fail in two ways: its selector is not resolved, or the operator makes nothing
of the value. -/
theorem compiles_comparison_iff {s : Selector} {op : Comparison} {v : Literal} :
    Compiles options (.comparison s op v) p ↔
      ∃ s', options.resolve s = .ok s' ∧ ofComparison s' op v = .ok p := by
  constructor
  · rintro ⟨⟩
    exact ⟨_, ‹_›, ‹_›⟩
  · rintro ⟨s', hs, hv⟩
    exact .comparison hs hv

end

/-! ## Single constraints -/

theorem resolve_of_permit {s : Selector} {allowed : Option (List String)}
    (h : s.permit allowed = .ok ()) (ignoreCase : Bool) :
    Options.resolve { ignoreCase, allowed } s = .ok s := by
  rw [Options.resolve, h]
  rfl

/-- A text with a star is a glob, for equality as for its negation. The star need not be alone or at
an end; one is enough. -/
theorem ofEquality_of_mem_star {t : String} (h : Glob.star ∈ t.toList) (ignoreCase : Bool)
    (s : Selector) (op : Equality) :
    ofEquality ignoreCase s op (.text t) = .like s ⟨t.toList, ignoreCase⟩ (op == .notEqual) := by
  rw [ofEquality, if_pos (List.contains_iff_mem.2 h)]

/-- A text without a star is compared as a whole, as a list of one value. -/
theorem ofEquality_of_notMem_star {t : String} (h : Glob.star ∉ t.toList) (ignoreCase : Bool)
    (s : Selector) (op : Equality) :
    ofEquality ignoreCase s op (.text t) = .equals s [.text t] (op == .notEqual) ignoreCase := by
  rw [ofEquality, if_neg (mt List.contains_iff_mem.1 h)]

end FilterQuery.Predicate
