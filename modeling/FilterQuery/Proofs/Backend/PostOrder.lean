import FilterQuery.Backend

/-!
# Backends as stack machines

A backend is run by a recursion over the query. The machine here does the same work without one: it
takes the nodes of the query from a list in which every node stands after its operands, and keeps
the parts that wait for their node on a stack. A constraint pushes a part; a node with two operands
pops the right part, then the left one, and pushes what the backend makes of them.

The machine can get stuck on an arbitrary list of nodes, when a part is missing from the stack or
some are left over at the end, and then has no result. On the nodes of a query it never does:

* `foldlM_postOrder`: the nodes of a subtree push the part of the subtree, whatever nodes come after
  them and whatever waits on the stack.
* `run_runPostOrder`: so the machine and the recursion make the same computation, in any lawful
  monad.
-/

namespace FilterQuery

/-! ## Post-order -/

/-- A node of a query, without its operands. -/
inductive Node where
  | or
  | and
  | present (s : Selector)
  | equality (s : Selector) (op : Equality) (v : Literal)
  | comparison (s : Selector) (op : Comparison) (v : Literal)

/-- The nodes of a query: a node after its operands, and the left operand before the right one. -/
def Query.postOrder : Query → List Node
  | .or l r => l.postOrder ++ (r.postOrder ++ [.or])
  | .and l r => l.postOrder ++ (r.postOrder ++ [.and])
  | .present s => [.present s]
  | .equality s op v => [.equality s op v]
  | .comparison s op v => [.comparison s op v]

namespace Backend

variable {m : Type → Type} [Monad m] {Options Part State Output : Type}

/-! ## The machine -/

/-- What the machine keeps between two nodes: the parts that wait for their node, the last one
first, and the backend's state. -/
structure Progress (Part State : Type) where
  stack : List Part
  state : State

/-- Puts a new part on the stack, together with the state that came with it. -/
def Progress.push (p : Progress Part State) (made : Part × State) : Progress Part State :=
  ⟨made.1 :: p.stack, made.2⟩

/-- Handles one node. A node with two operands gets stuck if there are not two parts for it. -/
def handle (b : Backend m Options Part State Output) (ctx : Context Options)
    (p : Progress Part State) : Node → OptionT m (Progress Part State)
  | .or =>
    match p.stack with
    | right :: left :: stack => do
      return Progress.push { p with stack } (← b.disjoin ctx left right p.state)
    | _ => failure
  | .and =>
    match p.stack with
    | right :: left :: stack => do
      return Progress.push { p with stack } (← b.conjoin ctx left right p.state)
    | _ => failure
  | .present s => do
    -- there is no value to adapt, so one that comes back is dropped
    let (s, _) ← b.adapt ctx s none
    return p.push (← b.present ctx s p.state)
  | .equality s op v => do
    let (s, v') ← b.adapt ctx s (some v)
    return p.push (← b.equality ctx s op (v'.getD v) p.state)
  | .comparison s op v => do
    let (s, v') ← b.adapt ctx s (some v)
    return p.push (← b.comparison ctx s op (v'.getD v) p.state)

/-- The output of the machine for the nodes of a query. It is stuck at the end unless there is just
one part. -/
def runPostOrder (b : Backend m Options Part State Output) (q : Query) (options : Options) :
    OptionT m Output := do
  let ctx := ⟨q, options⟩
  let (base, state) ← b.start ctx
  let p ← q.postOrder.foldlM (b.handle ctx) ⟨[], state⟩
  match p.stack with
  | [tree] => b.finish ctx base tree p.state
  | _ => failure

variable [LawfulMonad m]

/-! ## The machine and the walk -/

/-- The nodes of a subtree push its part. Nodes after them and parts below it are not touched. Both
are needed for the induction: the right operand is pushed on top of the left one. -/
theorem foldlM_postOrder (b : Backend m Options Part State Output) (ctx : Context Options)
    (q : Query) (nodes : List Node) (p : Progress Part State) :
    (q.postOrder ++ nodes).foldlM (b.handle ctx) p =
      (do nodes.foldlM (b.handle ctx) (p.push (← b.walk ctx q p.state)) :
        OptionT m (Progress Part State)) := by
  -- the nodes of the left operand are followed by the ones of the right operand and the node itself
  induction q generalizing nodes p with
  | or l r ihl ihr
  | and l r ihl ihr =>
    rw [Query.postOrder, List.append_assoc, ihl]
    simp only [List.append_assoc, ihr]
    simp [walk, handle, Progress.push]
  | present s => simp [Query.postOrder, walk, handle]
  | equality s op v => simp [Query.postOrder, walk, adaptValue, handle]
  | comparison s op v => simp [Query.postOrder, walk, adaptValue, handle]

/-- The machine never gets stuck on a query, and makes the same computation as the walk. -/
theorem run_runPostOrder (b : Backend m Options Part State Output) (q : Query)
    (options : Options) : (b.runPostOrder q options).run = some <$> b.run q options := by
  have hnodes (p : Progress Part State) :
      q.postOrder.foldlM (b.handle ⟨q, options⟩) p =
        (do return p.push (← b.walk ⟨q, options⟩ q p.state) : OptionT m (Progress Part State)) := by
    simpa using b.foldlM_postOrder ⟨q, options⟩ q [] p
  have hlift : b.runPostOrder q options = (liftM (b.run q options) : OptionT m Output) := by
    simp [runPostOrder, run, hnodes, Progress.push]
  rw [hlift, map_eq_pure_bind]
  exact OptionT.run_lift _

end Backend

end FilterQuery
