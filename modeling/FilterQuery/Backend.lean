import FilterQuery.Query

/-!
# Backends

A backend turns a query into another form: a predicate, a statement, a log. It says what to do at
each kind of node and how to begin and end; `run` walks the tree, left before right and a node after
its operands, and threads one state through all steps. A constraint's selector and value pass
through the backend's `adapt` before its own step sees them.

The steps live in a monad, so a backend may fail or keep a record of what it was asked.
-/

namespace FilterQuery

/-- What every step of a backend can see. -/
structure Context (Options : Type) where
  /-- The whole query. -/
  root : Query
  options : Options

/-- The steps by which a query is turned into an `Output`, with a `Part` for each of its subtrees
and a `State` that is handed from step to step. -/
structure Backend (m : Type → Type) [Monad m] (Options Part State Output : Type) where
  /-- Before the walk: the base for the end, and the first state. -/
  start : Context Options → m (Part × State)
  /-- Replaces the selector of a constraint, and its value if it has one. -/
  adapt : Context Options → Selector → Option Literal → m (Selector × Option Literal) :=
    fun _ s v => pure (s, v)
  /-- Joins two subtrees of which one has to hold. -/
  disjoin : Context Options → Part → Part → State → m (Part × State)
  /-- Joins two subtrees which both have to hold. -/
  conjoin : Context Options → Part → Part → State → m (Part × State)
  /-- A selector that has to be present. -/
  present : Context Options → Selector → State → m (Part × State)
  /-- A selector with an equality operator. -/
  equality : Context Options → Selector → Equality → Literal → State → m (Part × State)
  /-- A selector with a comparison operator. -/
  comparison : Context Options → Selector → Comparison → Literal → State → m (Part × State)
  /-- After the walk: the output made from the base, the whole tree and the last state. -/
  finish : Context Options → Part → Part → State → m Output

namespace Backend

variable {m : Type → Type} [Monad m] {Options Part State Output : Type}

/-- The selector and the value of a constraint as its step sees them. If `adapt` gives no value, the
one that was there is kept. -/
def adaptValue (b : Backend m Options Part State Output) (ctx : Context Options) (s : Selector)
    (v : Literal) : m (Selector × Literal) := do
  let (s', v') ← b.adapt ctx s (some v)
  return (s', v'.getD v)

/-- The part for a subtree, and the state after it. -/
def walk (b : Backend m Options Part State Output) (ctx : Context Options) :
    Query → State → m (Part × State)
  | .or l r, state => do
    let (left, state) ← b.walk ctx l state
    let (right, state) ← b.walk ctx r state
    b.disjoin ctx left right state
  | .and l r, state => do
    let (left, state) ← b.walk ctx l state
    let (right, state) ← b.walk ctx r state
    b.conjoin ctx left right state
  | .present s, state => do
    let (s, _) ← b.adapt ctx s none
    b.present ctx s state
  | .equality s op v, state => do
    let (s, v) ← b.adaptValue ctx s v
    b.equality ctx s op v state
  | .comparison s op v, state => do
    let (s, v) ← b.adaptValue ctx s v
    b.comparison ctx s op v state

/-- The output of a backend for a query. -/
def run (b : Backend m Options Part State Output) (q : Query) (options : Options) : m Output := do
  let ctx := ⟨q, options⟩
  let (base, state) ← b.start ctx
  let (tree, state) ← b.walk ctx q state
  b.finish ctx base tree state

end Backend

/-- A run that may fail and has a result got past its first step. -/
theorem exists_of_bind_eq_ok {ε α β : Type} {x : Except ε α} {f : α → Except ε β} {b : β}
    (h : x >>= f = .ok b) : ∃ a, x = .ok a ∧ f a = .ok b := by
  cases x with
  | error e => cases h
  | ok a => exact ⟨a, rfl, h⟩

end FilterQuery
