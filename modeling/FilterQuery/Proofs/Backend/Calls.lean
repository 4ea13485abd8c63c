import FilterQuery.Proofs.Backend.PostOrder
import FilterQuery.Sql.Backend

/-!
# The calls that a run makes

Which steps of a backend a run calls, in which order and with which arguments, does not show in its
result. It shows in the result of the `recorded` backend, which answers like the given one and
notes every call before it answers.

* `Makes.bind`: computations after one another make their calls one after another, and a failed
  call is the last one.
* `makes_walk`: the walk through a query calls `adapt` once for every constraint, in their order,
  one step for every constraint and one for every pair of operands.
* `run_recorded`: a run and the stack machine make the same calls, and what these calls are.
-/

namespace FilterQuery.Backend

variable {Options Part State Output ε α β : Type}

/-! ## Records of calls -/

/-- What a step of a backend is asked, apart from the context. -/
inductive Request (Part State : Type) where
  | start
  | adapt (s : Selector) (v : Option Literal)
  | disjoin (left right : Part) (state : State)
  | conjoin (left right : Part) (state : State)
  | present (s : Selector) (state : State)
  | equality (s : Selector) (op : Equality) (v : Literal) (state : State)
  | comparison (s : Selector) (op : Comparison) (v : Literal) (state : State)
  | finish (base tree : Part) (state : State)

/-- A call of a step with all its arguments. -/
structure Call (Options Part State : Type) where
  context : Context Options
  request : Request Part State

/-- A computation that may fail and keeps a record of calls. -/
abbrev Recording (ε Options Part State : Type) : Type → Type :=
  ExceptT ε (StateM (List (Call Options Part State)))

/-- The result of a computation that starts without a record, and the calls it makes. -/
def Recording.trace (x : Recording ε Options Part State α) :
    Except ε α × List (Call Options Part State) :=
  x.run.run []

/-- Notes a call and answers it. -/
def record (call : Call Options Part State) (answer : Except ε α) :
    Recording ε Options Part State α :=
  fun calls => (answer, calls ++ [call])

/-- The backend that answers as `b` does and keeps a record of the calls. -/
def recorded (b : Backend (Except ε) Options Part State Output) :
    Backend (Recording ε Options Part State) Options Part State Output where
  start := fun ctx => record ⟨ctx, .start⟩ (b.start ctx)
  adapt := fun ctx s v => record ⟨ctx, .adapt s v⟩ (b.adapt ctx s v)
  disjoin := fun ctx l r state => record ⟨ctx, .disjoin l r state⟩ (b.disjoin ctx l r state)
  conjoin := fun ctx l r state => record ⟨ctx, .conjoin l r state⟩ (b.conjoin ctx l r state)
  present := fun ctx s state => record ⟨ctx, .present s state⟩ (b.present ctx s state)
  equality := fun ctx s op v state =>
    record ⟨ctx, .equality s op v state⟩ (b.equality ctx s op v state)
  comparison := fun ctx s op v state =>
    record ⟨ctx, .comparison s op v state⟩ (b.comparison ctx s op v state)
  finish := fun ctx base tree state =>
    record ⟨ctx, .finish base tree state⟩ (b.finish ctx base tree state)

/-- Whether the backend's answer to a call is an error, and which. -/
def outcome (b : Backend (Except ε) Options Part State Output) (call : Call Options Part State) :
    Except ε Unit :=
  match call.request with
  | .start => discard (b.start call.context)
  | .adapt s v => discard (b.adapt call.context s v)
  | .disjoin l r state => discard (b.disjoin call.context l r state)
  | .conjoin l r state => discard (b.conjoin call.context l r state)
  | .present s state => discard (b.present call.context s state)
  | .equality s op v state => discard (b.equality call.context s op v state)
  | .comparison s op v state => discard (b.comparison call.context s op v state)
  | .finish base tree state => discard (b.finish call.context base tree state)

/-- The selector that a call asks to adapt. -/
def Call.adapted? (call : Call Options Part State) : Option Selector :=
  match call.request with
  | .adapt s _ => some s
  | _ => none

/-- Calls that end as the result says: all of them have succeeded, or the last one has failed. -/
def Ends (b : Backend (Except ε) Options Part State Output)
    (calls : List (Call Options Part State)) : Except ε α → Prop
  | .ok _ => ∀ c ∈ calls, b.outcome c = .ok ()
  | .error e => ∃ before last, calls = before ++ [last] ∧ (∀ c ∈ before, b.outcome c = .ok ()) ∧
      b.outcome last = .error e

/-- The computation `x` gives `result` and makes calls that end so. If it succeeds, it makes `n`
calls, among them the ones of `adapt` for these selectors. -/
def Makes (b : Backend (Except ε) Options Part State Output)
    (x : Recording ε Options Part State α) (result : Except ε α) (selectors : List Selector)
    (n : Nat) : Prop :=
  ∀ calls, ∃ new, x calls = (result, calls ++ new) ∧ b.Ends new result ∧
    ∀ a, result = .ok a → new.filterMap Call.adapted? = selectors ∧ new.length = n

variable {b : Backend (Except ε) Options Part State Output}

/-- A single step is one call, whatever its answer is. The hypotheses say that the call is the one
that the backend answers so, and which selector it adapts, if it is a call of `adapt`. -/
theorem makes_record (call : Call Options Part State) {answer : Except ε α} {ss : List Selector}
    (h : b.outcome call = discard answer) (hss : call.adapted?.toList = ss) :
    b.Makes (record call answer) answer ss 1 := by
  intro calls
  refine ⟨[call], rfl, ?_, fun _ _ => ⟨?_, rfl⟩⟩
  · cases answer with
    -- a single call is all of the calls and also the last of them
    | ok a =>
      intro c hc
      rw [List.mem_singleton.1 hc, h]
      rfl
    | error e => exact ⟨[], call, rfl, fun _ hc => absurd hc List.not_mem_nil, h⟩
  · rw [← hss]
    cases hcall : call.adapted? <;> simp [hcall]

/-- A value that is at hand makes no call. So where a computation is only this, the record ends
where it was. -/
theorem makes_pure (a : α) : b.Makes (pure a) (.ok a) [] 0 :=
  fun calls => ⟨[], by rw [List.append_nil]; rfl, fun _ hc => absurd hc List.not_mem_nil,
    fun _ _ => ⟨rfl, rfl⟩⟩

/-- What a sequence of two computations does to the record: the second one goes on with the record
of the first, unless the first one has failed. -/
theorem bind_apply (x : Recording ε Options Part State α) (f : α → Recording ε Options Part State β)
    (calls : List (Call Options Part State)) :
    (x >>= f) calls =
      match x calls with
      | (.ok a, calls) => f a calls
      | (.error e, calls) => (.error e, calls) := by
  show (match x calls with | (answer, calls) => ExceptT.bindCont f answer calls) = _
  rcases x calls with ⟨_ | a, calls⟩ <;> rfl

/-- Calls that all succeeded may stand in front of any calls that end as a result says. This is how
the record of a node is put together from those of its parts: they come first, and all their calls
have succeeded. -/
theorem Ends.append {new more : List (Call Options Part State)} {result : Except ε α}
    (hnew : ∀ c ∈ new, b.outcome c = .ok ()) (hmore : b.Ends more result) :
    b.Ends (new ++ more) result := by
  cases result with
  | ok a =>
    intro c hc
    rcases List.mem_append.1 hc with hc | hc
    · exact hnew c hc
    · exact hmore c hc
  | error e =>
    -- the failed call is still the last one
    obtain ⟨before, last, rfl, hbefore, hlast⟩ := hmore
    refine ⟨new ++ before, last, (List.append_assoc ..).symm, fun c hc => ?_, hlast⟩
    rcases List.mem_append.1 hc with hc | hc
    · exact hnew c hc
    · exact hbefore c hc

/-- Two computations after one another: their calls, selectors and numbers of calls add up. If the
first one fails, the calls of the second one are never made, and the failed call stays the last. -/
theorem Makes.bind {x : Recording ε Options Part State α} {f : α → Recording ε Options Part State β}
    {result : Except ε α} {g : α → Except ε β} {ss ss' : List Selector} {n n' : Nat}
    (hx : b.Makes x result ss n) (hf : ∀ a, b.Makes (f a) (g a) ss' n') :
    b.Makes (x >>= f) (result >>= g) (ss ++ ss') (n + n') := by
  intro calls
  obtain ⟨new, heq, hends, hnew⟩ := hx calls
  rw [bind_apply, heq]
  cases result with
  | error e =>
    -- nothing is called after the failure
    refine ⟨new, rfl, hends, fun _ h => ?_⟩
    cases h
  | ok a =>
    -- the second computation starts with the record of the first
    obtain ⟨more, heq', hends', hmore⟩ := hf a (calls ++ new)
    refine ⟨new ++ more, ?_, hends'.append hends, fun a' ha' => ?_⟩
    · rw [← List.append_assoc]
      exact heq'
    · obtain ⟨hselectors, hlength⟩ := hnew a rfl
      obtain ⟨hselectors', hlength'⟩ := hmore a' ha'
      rw [List.filterMap_append, List.length_append, hselectors, hselectors', hlength, hlength']
      exact ⟨rfl, rfl⟩

/-! ## The calls of a walk -/

/-- The number of calls that a walk through the query makes: two for a constraint, and one for a
node with two operands. -/
def walkCalls : Query → Nat
  | .or l r => walkCalls l + (walkCalls r + 1)
  | .and l r => walkCalls l + (walkCalls r + 1)
  | _ => 2

/-- A query with `k` constraints has `k - 1` pairs of operands, so a walk makes `3 * k - 1` calls.
The sum is stated with one call more, which is free of subtraction. -/
theorem walkCalls_add_one (q : Query) : walkCalls q + 1 = 3 * q.selectors.length := by
  induction q with
  | or l r ihl ihr
  | and l r ihl ihr =>
    rw [walkCalls, Query.selectors, List.length_append]
    omega
  | present s => rfl
  | equality s op v => rfl
  | comparison s op v => rfl

/-- A constraint with a value is adapted by one call; a value that is dropped is put back without
another one. -/
theorem makes_adaptValue (b : Backend (Except ε) Options Part State Output)
    (ctx : Context Options) (s : Selector) (v : Literal) :
    b.Makes (b.recorded.adaptValue ctx s v) (b.adaptValue ctx s v) [s] 1 :=
  (makes_record ⟨ctx, .adapt s (some v)⟩ rfl rfl).bind fun _ => makes_pure _

/-- The calls of a walk follow the recursion: those for the left operand, those for the right one,
and the call that joins the two parts. -/
theorem makes_walk (b : Backend (Except ε) Options Part State Output) (ctx : Context Options)
    (q : Query) (state : State) :
    b.Makes (b.recorded.walk ctx q state) (b.walk ctx q state) q.selectors (walkCalls q) := by
  induction q generalizing state with
  | or l r ihl ihr =>
    rw [Query.selectors, ← List.append_nil r.selectors]
    exact (ihl state).bind fun left => (ihr left.2).bind fun right =>
      makes_record ⟨ctx, .disjoin left.1 right.1 right.2⟩ rfl rfl
  | and l r ihl ihr =>
    rw [Query.selectors, ← List.append_nil r.selectors]
    exact (ihl state).bind fun left => (ihr left.2).bind fun right =>
      makes_record ⟨ctx, .conjoin left.1 right.1 right.2⟩ rfl rfl
  -- a constraint without a value adapts its selector alone
  | present s =>
    exact (makes_record ⟨ctx, .adapt s none⟩ rfl rfl).bind fun adapted =>
      makes_record ⟨ctx, .present adapted.1 state⟩ rfl rfl
  | equality s op v =>
    exact (makes_adaptValue b ctx s v).bind fun adapted =>
      makes_record ⟨ctx, .equality adapted.1 op adapted.2 state⟩ rfl rfl
  | comparison s op v =>
    exact (makes_adaptValue b ctx s v).bind fun adapted =>
      makes_record ⟨ctx, .comparison adapted.1 op adapted.2 state⟩ rfl rfl

/-! ## The calls of a run -/

/-- The stack machine gives its result inside of an option, which does not show in the record. -/
theorem trace_some_map (x : Recording ε Options Part State α) :
    Recording.trace (some <$> x) = (some <$> x.trace.1, x.trace.2) := by
  rw [map_eq_pure_bind]
  show (x >>= fun a => pure (some a)) [] = (some <$> (x []).1, (x []).2)
  rw [bind_apply]
  rcases x [] with ⟨_ | a, calls⟩ <;> rfl

/-- A run and the stack machine make the same calls with the same arguments, and have the same
result, which is the one of the backend without a record. All calls up to the end have succeeded, or
the last one has failed and its error is the result. A run that succeeds makes one call at the start
and one at the end, two for each constraint, of which the first is the one of `adapt` for its
selector, and one for each pair of operands. -/
theorem run_recorded (b : Backend (Except ε) Options Part State Output) (q : Query)
    (options : Options) :
    ∃ calls,
      (b.recorded.run q options).trace = (b.run q options, calls) ∧
      (b.recorded.runPostOrder q options).run.trace = (some <$> b.run q options, calls) ∧
      b.Ends calls (b.run q options) ∧
      ∀ out, b.run q options = .ok out →
        calls.filterMap Call.adapted? = q.selectors ∧
        calls.length = 2 + 2 * q.selectors.length + (q.selectors.length - 1) := by
  -- a run is three computations after one another: start, walk and finish
  have hrun : b.Makes (b.recorded.run q options) (b.run q options) (q.selectors ++ [])
      (1 + (walkCalls q + 1)) :=
    (makes_record ⟨⟨q, options⟩, .start⟩ rfl rfl).bind fun begun =>
      (makes_walk b ⟨q, options⟩ q begun.2).bind fun tree =>
        makes_record ⟨⟨q, options⟩, .finish begun.1 tree.1 tree.2⟩ rfl rfl
  obtain ⟨calls, hcalls, hends, hshape⟩ := hrun []
  have htrace : (b.recorded.run q options).trace = (b.run q options, calls) := hcalls
  refine ⟨calls, htrace, ?_, hends, fun out hout => ?_⟩
  · rw [run_runPostOrder, trace_some_map, htrace]
  · obtain ⟨hselectors, hlength⟩ := hshape out hout
    rw [List.append_nil] at hselectors
    have := walkCalls_add_one q
    exact ⟨hselectors, by omega⟩

/-- Two constraints under one node, with the statement backend: seven calls, two of them of `adapt`.
-/
theorem run_recorded_two_constraints :
    let q : Query := .or (.present ⟨none, "a"⟩) (.equality ⟨none, "b"⟩ .equal (.text "c*"))
    let options : Sql.Options := { table := "t" }
    ∃ st calls, Sql.backend.run q options = .ok st ∧
      (Sql.backend.recorded.run q options).trace = (.ok st, calls) ∧
      (Sql.backend.recorded.runPostOrder q options).run.trace = (.ok (some st), calls) ∧
      calls.filterMap Call.adapted? = [⟨none, "a"⟩, ⟨none, "b"⟩] ∧ calls.length = 7 := by
  intro q options
  obtain ⟨calls, hrun, hmachine, -, hshape⟩ := run_recorded Sql.backend q options
  obtain ⟨hselectors, hlength⟩ := hshape _ rfl
  exact ⟨_, calls, rfl, hrun, hmachine, hselectors, hlength⟩

end FilterQuery.Backend
