import FilterQuery.Predicate.Backend
import FilterQuery.Proofs.Sql.Fragments

/-!
# Which queries are refused

The predicate backend and the statement backend each check the constraints of a query on their way
through it. What they refuse is said here without them: `Query.Faulty` lists what can be wrong with
a constraint, and `Query.FirstRefused` finds the reason that is reported, which is the one of the
leftmost constraint with a fault.

* `check_eq_error_iff_firstRefused`: a check that stops at the first fault finds this reason.
* `Vets.run`: a backend that fails on single constraints as the check does fails on queries as the
  check does.
* `ofQuery_eq_error_iff_firstRefused`: both backends do, so they accept the same queries and report
  the same faults.
-/

namespace FilterQuery

/-! ## Faults of constraints -/

/-- The constraints of a query, from left to right. -/
def Query.constraints : Query → List Query
  | .or l r => l.constraints ++ r.constraints
  | .and l r => l.constraints ++ r.constraints
  | c => [c]

/-- There is a list of permitted paths, and the one of the selector is not on it. -/
def Selector.Barred (allowed : Option (List String)) (s : Selector) : Prop :=
  ∃ paths, allowed = some paths ∧ s.path ∉ paths

namespace Query

/-- What is wrong with a constraint: its selector is barred, its operator has no meaning, or it
compares with a value of the wrong kind. -/
inductive Faulty (allowed : Option (List String)) : Query → Refusal → Prop where
  | selector {c : Query} {s : Selector} (hs : c.selector? = some s) (h : s.Barred allowed) :
      Faulty allowed c (.selectorNotPermitted s.path)
  | operator (s : Selector) (name : String) (v : Literal) :
      Faulty allowed (.comparison s (.custom name) v) (.unsupportedOperator name)
  | nullValue (s : Selector) {v : Literal} (hv : ∀ b, v ≠ .bool b) :
      Faulty allowed (.comparison s .isNull v) (.incompatibleValue .isNull v.kind)
  | orderValue (s : Selector) (b : Bound) {v : Literal} (hnumber : ∀ n, v ≠ .number n)
      (htext : ∀ t, v ≠ .text t) :
      Faulty allowed (.comparison s (.bound b) v) (.incompatibleValue (.bound b) v.kind)

/-- The reason for which a constraint is refused. A barred selector goes before other faults. -/
def Refused (allowed : Option (List String)) (c : Query) (reason : Refusal) : Prop :=
  c.Faulty allowed reason ∧
    ∀ s, c.selector? = some s → s.Barred allowed → reason = .selectorNotPermitted s.path

/-- The reason for which a query is refused: the one of its leftmost constraint with a fault. -/
def FirstRefused (allowed : Option (List String)) (q : Query) (reason : Refusal) : Prop :=
  ∃ before c after, q.constraints = before ++ c :: after ∧
    (∀ c' ∈ before, ∀ reason', ¬ c'.Faulty allowed reason') ∧ c.Refused allowed reason

/-! ## The check -/

/-- Checks that the operator of a constraint has a meaning and suits its value. -/
def checkValue : Query → Except Refusal Unit
  | .comparison _ op v => discard (op.demand v)
  | _ => .ok ()

/-- Checks the constraints of a query from left to right. -/
def check (allowed : Option (List String)) : Query → Except Refusal Unit
  | .or l r => do l.check allowed; r.check allowed
  | .and l r => do l.check allowed; r.check allowed
  | .present s => do s.permit allowed; checkValue (.present s)
  | .equality s op v => do s.permit allowed; checkValue (.equality s op v)
  | .comparison s op v => do s.permit allowed; checkValue (.comparison s op v)

variable {allowed : Option (List String)}

/-- The check of a single constraint: first its selector, then its value. The three kinds of
constraints differ only in what `checkValue` looks at. -/
theorem check_of_selector? {c : Query} {s : Selector} (hs : c.selector? = some s) :
    c.check allowed = (do s.permit allowed; c.checkValue) := by
  cases c <;> cases hs <;> rfl

/-- What stands at the leaves of a query is a constraint, so it has a selector. So the check has a
selector to look at wherever it stops. -/
theorem exists_selector?_of_mem_constraints {q c : Query} (h : c ∈ q.constraints) :
    ∃ s, c.selector? = some s := by
  induction q with
  | or l r ihl ihr
  | and l r ihl ihr =>
    rcases List.mem_append.1 h with hl | hr
    · exact ihl hl
    · exact ihr hr
  | present s
  | equality s op v
  | comparison s op v =>
    rw [List.mem_singleton.1 h]
    exact ⟨s, rfl⟩

/-- The check of a selector in its two cases: it is barred and refused by its path, or it is not
barred and passes. -/
theorem permit_eq (allowed : Option (List String)) (s : Selector) :
    s.Barred allowed ∧ s.permit allowed = .error (.selectorNotPermitted s.path) ∨
      ¬ s.Barred allowed ∧ s.permit allowed = .ok () := by
  cases allowed with
  | none =>
    refine .inr ⟨?_, rfl⟩
    rintro ⟨paths, hpaths, -⟩
    cases hpaths
  | some paths =>
    by_cases hmem : s.path ∈ paths
    · refine .inr ⟨?_, if_pos (List.contains_iff_mem.2 hmem)⟩
      rintro ⟨_, hpaths, hbarred⟩
      cases hpaths
      exact hbarred hmem
    · exact .inl ⟨⟨paths, rfl, hmem⟩, if_neg (mt List.contains_iff_mem.1 hmem)⟩

theorem permit_eq_ok {s : Selector} {allowed : Option (List String)} (h : ¬ s.Barred allowed) :
    s.permit allowed = .ok () := by
  rcases permit_eq allowed s with ⟨hbarred, -⟩ | ⟨-, hok⟩
  · exact absurd hbarred h
  · exact hok

/-- The check of a comparison keeps the error of `demand` and forgets what is demanded. Both
backends then ask for the same, and differ in what they do with it only. -/
theorem checkValue_eq_error_iff {s : Selector} {op : Comparison} {v : Literal} {reason : Refusal} :
    checkValue (.comparison s op v) = .error reason ↔ op.demand v = .error reason := by
  rw [checkValue]
  cases op.demand v with
  | ok demand => exact ⟨nofun, nofun⟩
  | error reason' => exact ⟨fun h => by cases h; rfl, fun h => by cases h; rfl⟩

/-- A comparison that demands nothing has a fault, which is the reason that is given. One case for
each operator, and under it one for each kind of value. -/
theorem faulty_of_demand_eq_error {s : Selector} {op : Comparison} {v : Literal} {reason : Refusal}
    (h : op.demand v = .error reason) : (comparison s op v).Faulty allowed reason := by
  cases op with
  -- an order needs a number or a text
  | bound b =>
    cases v with
    | bool _
    | list _ =>
      cases h
      exact .orderValue s b nofun nofun
    | number _
    | text _ => cases h
  -- a test for null needs a truth value
  | isNull =>
    cases v with
    | bool _ => cases h
    | number _
    | text _
    | list _ =>
      cases h
      exact .nullValue s nofun
  | custom name =>
    cases h
    exact .operator s name v

/-- A test for null with a value that is no truth value demands nothing. -/
theorem demand_eq_error_of_isNull {v : Literal} (hv : ∀ b, v ≠ .bool b) :
    Comparison.isNull.demand v = .error (.incompatibleValue .isNull v.kind) := by
  cases v with
  | bool b => exact absurd rfl (hv b)
  | _ => rfl

/-- An order constraint with a value that is neither a number nor a text demands nothing. -/
theorem demand_eq_error_of_bound (b : Bound) {v : Literal} (hnumber : ∀ n, v ≠ .number n)
    (htext : ∀ t, v ≠ .text t) :
    (Comparison.bound b).demand v = .error (.incompatibleValue (.bound b) v.kind) := by
  cases v with
  | number n => exact absurd rfl (hnumber n)
  | text t => exact absurd rfl (htext t)
  | _ => rfl

/-- The faults of a constraint are the two that the check looks for. -/
theorem faulty_iff {c : Query} {s : Selector} (hs : c.selector? = some s) {reason : Refusal} :
    c.Faulty allowed reason ↔
      s.Barred allowed ∧ reason = .selectorNotPermitted s.path ∨ c.checkValue = .error reason := by
  constructor
  · intro h
    cases h with
    -- the selector of the rule is the one of the constraint
    | selector hs' h =>
      cases hs.symm.trans hs'
      exact .inl ⟨h, rfl⟩
    | operator s name v => exact .inr rfl
    | nullValue s hv => exact .inr (checkValue_eq_error_iff.2 (demand_eq_error_of_isNull hv))
    | orderValue s b hnumber htext =>
      exact .inr (checkValue_eq_error_iff.2 (demand_eq_error_of_bound b hnumber htext))
  · rintro (⟨h, rfl⟩ | h)
    · exact .selector hs h
    · cases c with
      | comparison s op v => exact faulty_of_demand_eq_error (checkValue_eq_error_iff.1 h)
      | _ => cases h

/-- A constraint is refused for one reason, even if it has two faults: a barred selector is found
before the value is looked at. -/
theorem check_eq_error_iff {c : Query} {s : Selector} (hs : c.selector? = some s)
    {reason : Refusal} : c.check allowed = .error reason ↔ c.Refused allowed reason := by
  rw [check_of_selector? hs, Refused, faulty_iff hs, hs]
  rcases permit_eq allowed s with ⟨hbarred, hpermit⟩ | ⟨hbarred, hpermit⟩
  · -- nothing else is looked at, and no other reason comes first
    rw [hpermit]
    constructor
    · intro h
      cases h
      refine ⟨.inl ⟨hbarred, rfl⟩, fun s' hs' _ => ?_⟩
      rw [Option.some.inj hs']
    · rintro ⟨-, hfirst⟩
      rw [hfirst s rfl hbarred]
      rfl
  · rw [hpermit]
    show c.checkValue = .error reason ↔ _
    constructor
    · intro h
      refine ⟨.inr h, fun s' hs' hbarred' => ?_⟩
      rw [← Option.some.inj hs'] at hbarred'
      exact absurd hbarred' hbarred
    · rintro ⟨⟨hbarred', -⟩ | h, -⟩
      · exact absurd hbarred' hbarred
      · exact h

/-- A constraint passes the check if it has no fault at all. -/
theorem check_eq_ok_iff {c : Query} {s : Selector} (hs : c.selector? = some s) :
    c.check allowed = .ok () ↔ ∀ reason, ¬ c.Faulty allowed reason := by
  constructor
  · intro hok reason hfaulty
    rw [check_of_selector? hs] at hok
    -- a constraint that has passed has a permitted selector, so only its value is left
    rcases permit_eq allowed s with ⟨hbarred, hpermit⟩ | ⟨hbarred, hpermit⟩
    · rw [hpermit] at hok
      cases hok
    · rw [hpermit] at hok
      rcases (faulty_iff hs).1 hfaulty with ⟨hbarred', -⟩ | hvalue
      · exact hbarred hbarred'
      · cases hvalue.symm.trans hok
  · intro hnone
    cases hcheck : c.check allowed with
    | ok u => rfl
    | error reason => exact absurd ((check_eq_error_iff hs).1 hcheck).1 (hnone reason)

/-! ## The first fault of a query -/

/-- The check of a query is the check of its constraints, one after the other. How they are joined
and nested is of no importance. -/
theorem check_eq_forM (allowed : Option (List String)) (q : Query) :
    q.check allowed = forM q.constraints (check allowed) := by
  induction q with
  | or l r ihl ihr
  | and l r ihl ihr =>
    rw [constraints, check, ihl, ihr]
    simp
  | _ => simp [constraints]

theorem forM_eq_ok_iff {cs : List Query} :
    forM cs (check allowed) = .ok () ↔ ∀ c ∈ cs, c.check allowed = .ok () := by
  induction cs with
  | nil => exact ⟨fun _ _ hc => absurd hc List.not_mem_nil, fun _ => rfl⟩
  | cons c cs ih =>
    rw [List.forM_cons, List.forall_mem_cons]
    cases c.check allowed with
    | ok u => exact ⟨fun h => ⟨rfl, ih.1 h⟩, fun h => ih.2 h.2⟩
    | error reason => exact ⟨nofun, nofun⟩

/-- A list of constraints fails at one of them, and those before it have passed. This is where
"leftmost" comes from: the loop goes through the constraints in their order. -/
theorem exists_of_forM_eq_error {cs : List Query} {reason : Refusal}
    (h : forM cs (check allowed) = .error reason) :
    ∃ before c after, cs = before ++ c :: after ∧ (∀ c' ∈ before, c'.check allowed = .ok ()) ∧
      c.check allowed = .error reason := by
  induction cs with
  | nil => cases h
  | cons c cs ih =>
    rw [List.forM_cons] at h
    cases hc : c.check allowed with
    | error reason' =>
      rw [hc] at h
      cases h
      exact ⟨[], c, cs, rfl, fun _ hc => absurd hc List.not_mem_nil, hc⟩
    | ok u =>
      rw [hc] at h
      obtain ⟨before, c', after, rfl, hbefore, hc'⟩ := ih h
      exact ⟨c :: before, c', after, rfl, List.forall_mem_cons.2 ⟨hc, hbefore⟩, hc'⟩

/-- A query passes the check if none of its constraints has a fault. In particular the order of the
constraints does not matter for this, unlike for the error. -/
theorem check_eq_ok_iff_forall (q : Query) :
    q.check allowed = .ok () ↔ ∀ c ∈ q.constraints, ∀ reason, ¬ c.Faulty allowed reason := by
  rw [check_eq_forM, forM_eq_ok_iff]
  refine forall₂_congr fun c hc => ?_
  obtain ⟨s, hs⟩ := exists_selector?_of_mem_constraints hc
  exact check_eq_ok_iff hs

/-- The check of a query stops at its first fault. All constraints before it have none, and of its
own faults the one about the selector is reported first. -/
theorem check_eq_error_iff_firstRefused (q : Query) (reason : Refusal) :
    q.check allowed = .error reason ↔ q.FirstRefused allowed reason := by
  have hconstraint {c : Query} (hc : c ∈ q.constraints) : ∃ s, c.selector? = some s :=
    exists_selector?_of_mem_constraints hc
  rw [check_eq_forM]
  constructor
  · intro h
    obtain ⟨before, c, after, hsplit, hbefore, hc⟩ := exists_of_forM_eq_error h
    rw [hsplit] at hconstraint
    refine ⟨before, c, after, hsplit, fun c' hc' => ?_, ?_⟩
    · obtain ⟨s, hs⟩ := hconstraint (List.mem_append_left _ hc')
      exact (check_eq_ok_iff hs).1 (hbefore c' hc')
    · obtain ⟨s, hs⟩ := hconstraint (List.mem_append_right _ List.mem_cons_self)
      exact (check_eq_error_iff hs).1 hc
  · rintro ⟨before, c, after, hsplit, hbefore, hc⟩
    rw [hsplit] at hconstraint ⊢
    -- the constraints before the first fault pass, so the check comes to it
    have hpassed : forM before (check allowed) = .ok () := by
      refine forM_eq_ok_iff.2 fun c' hc' => ?_
      obtain ⟨s, hs⟩ := hconstraint (List.mem_append_left _ hc')
      exact (check_eq_ok_iff hs).2 (hbefore c' hc')
    obtain ⟨s, hs⟩ := hconstraint (List.mem_append_right _ List.mem_cons_self)
    rw [List.forM_append, hpassed, List.forM_cons, (check_eq_error_iff hs).2 hc]
    rfl

end Query

/-! ## Backends that check -/

namespace Backend

variable {ε Options Part State Output α β : Type}

/-- The error of a sequence of two steps: the one of the first step, and if there is none the one of
the second, which is to be the same for every value that it may be given. -/
theorem discard_bind {x : Except ε α} {f : α → Except ε β} {y : Except ε Unit}
    (h : ∀ a, x = .ok a → discard (f a) = y) : discard (x >>= f) = (do discard x; y) := by
  cases x with
  | ok a => exact h a rfl
  | error e => rfl

theorem discard_bind_of_ok {x : Except ε α} {f : α → Except ε β}
    (h : ∀ a, discard (f a) = .ok ()) : discard (x >>= f) = discard x := by
  rw [discard_bind fun a _ => h a]
  cases x <;> rfl

/-- Errors of a sequence can be wrapped step by step. -/
theorem mapError_bind (wrap : Refusal → ε) (x y : Except Refusal Unit) :
    (do x; y).mapError wrap = (do x.mapError wrap; y.mapError wrap) := by
  cases x <;> rfl

/-- The backend fails when a selector is adapted that is not permitted, and on a comparison that
demands nothing, and nowhere else. -/
structure Vets (b : Backend (Except ε) Options Part State Output) (ctx : Context Options)
    (allowed : Option (List String)) (wrap : Refusal → ε) : Prop where
  start : discard (b.start ctx) = .ok ()
  adapt : ∀ s v, discard (b.adapt ctx s v) = (s.permit allowed).mapError wrap
  disjoin : ∀ left right state, discard (b.disjoin ctx left right state) = .ok ()
  conjoin : ∀ left right state, discard (b.conjoin ctx left right state) = .ok ()
  present : ∀ s state, discard (b.present ctx s state) = .ok ()
  equality : ∀ s op v state, discard (b.equality ctx s op v state) = .ok ()
  comparison : ∀ {s s' v v'}, b.adaptValue ctx s v = .ok (s', v') → ∀ op state,
    discard (b.comparison ctx s' op v' state) = (discard (op.demand v)).mapError wrap
  finish : ∀ base tree state, discard (b.finish ctx base tree state) = .ok ()

variable {b : Backend (Except ε) Options Part State Output} {ctx : Context Options}
  {allowed : Option (List String)} {wrap : Refusal → ε}

/-- What is asked of `adapt` holds also for a constraint with a value. -/
theorem Vets.adaptValue (h : b.Vets ctx allowed wrap) (s : Selector) (v : Literal) :
    discard (b.adaptValue ctx s v) = (s.permit allowed).mapError wrap :=
  (discard_bind_of_ok fun _ => rfl).trans (h.adapt s (some v))

/-- Two walks and a step that joins their parts fail as the two walks do. -/
theorem discard_join {x : Except ε (Part × State)} {f : State → Except ε (Part × State)}
    {join : Part → Part → State → Except ε (Part × State)} {y : Except ε Unit}
    (hf : ∀ state, discard (f state) = y)
    (hjoin : ∀ left right state, discard (join left right state) = .ok ()) :
    discard (do
      let (left, state) ← x
      let (right, state) ← f state
      join left right state) = (do discard x; y) := by
  -- the state that the second walk starts with comes from the first and does not matter
  refine discard_bind fun left _ => ?_
  rw [← hf left.2]
  exact discard_bind_of_ok fun right => hjoin left.1 right.1 right.2

/-- A walk fails as the check of the subtree does, whatever state it starts with. This is what makes
the two backends comparable: the state of one is a list of values, the other one has none. -/
theorem Vets.walk (h : b.Vets ctx allowed wrap) (q : Query) (state : State) :
    discard (b.walk ctx q state) = (q.check allowed).mapError wrap := by
  induction q generalizing state with
  | or l r ihl ihr =>
    rw [Query.check, mapError_bind, ← ihl state]
    exact discard_join ihr h.disjoin
  | and l r ihl ihr =>
    rw [Query.check, mapError_bind, ← ihl state]
    exact discard_join ihr h.conjoin
  | present s =>
    rw [Query.check, mapError_bind, ← h.adapt s none]
    exact discard_bind fun adapted _ => h.present adapted.1 state
  | equality s op v =>
    rw [Query.check, mapError_bind, ← h.adaptValue s v]
    exact discard_bind fun adapted _ => h.equality adapted.1 op adapted.2 state
  | comparison s op v =>
    rw [Query.check, mapError_bind, ← h.adaptValue s v]
    exact discard_bind fun _ hadapt => h.comparison hadapt op state

/-- A run fails as the check of the query does: the steps before and after the walk never fail. -/
theorem Vets.run {q : Query} {options : Options} (h : b.Vets ⟨q, options⟩ allowed wrap) :
    discard (b.run q options) = (q.check allowed).mapError wrap := by
  have hwalk (begun : Part × State) : discard (do
      let tree ← b.walk ⟨q, options⟩ q begun.2
      b.finish ⟨q, options⟩ begun.1 tree.1 tree.2) = (q.check allowed).mapError wrap :=
    (discard_bind_of_ok fun _ => h.finish ..).trans (h.walk q begun.2)
  have hrun : discard (b.run q options) = (do
      discard (b.start ⟨q, options⟩); (q.check allowed).mapError wrap) :=
    discard_bind fun begun _ => hwalk begun
  rw [hrun, h.start]
  rfl

theorem discard_eq_ok_iff {x : Except ε α} : discard x = .ok () ↔ ∃ a, x = .ok a := by
  cases x with
  | ok a => exact ⟨fun _ => ⟨a, rfl⟩, fun _ => rfl⟩
  | error e => exact ⟨nofun, nofun⟩

theorem discard_eq_error_iff {x : Except ε α} {e : ε} : discard x = .error e ↔ x = .error e := by
  cases x with
  | ok a => exact ⟨nofun, nofun⟩
  | error e' => exact ⟨fun h => by cases h; rfl, fun h => by cases h; rfl⟩

theorem mapError_eq_ok_iff {x : Except Refusal Unit} : x.mapError wrap = .ok () ↔ x = .ok () := by
  cases x with
  | ok a => exact ⟨fun _ => rfl, fun _ => rfl⟩
  | error reason => exact ⟨nofun, nofun⟩

theorem mapError_eq_error_iff {x : Except Refusal Unit} {e : ε} :
    x.mapError wrap = .error e ↔ ∃ reason, e = wrap reason ∧ x = .error reason := by
  cases x with
  | ok a => exact ⟨nofun, nofun⟩
  | error reason =>
    constructor
    · intro h
      cases h
      exact ⟨reason, rfl, rfl⟩
    · rintro ⟨reason', rfl, h⟩
      cases h
      rfl

/-- Such a backend succeeds on the queries without faults. -/
theorem Vets.run_eq_ok_iff {q : Query} {options : Options}
    (h : b.Vets ⟨q, options⟩ allowed wrap) :
    (∃ out, b.run q options = .ok out) ↔
      ∀ c ∈ q.constraints, ∀ reason, ¬ c.Faulty allowed reason := by
  rw [← discard_eq_ok_iff, h.run, mapError_eq_ok_iff, q.check_eq_ok_iff_forall]

/-- Such a backend fails on the other queries, for the reason of the leftmost fault. The reason is
all that two such backends have in common, since each has errors of its own. -/
theorem Vets.run_eq_error_iff {q : Query} {options : Options}
    (h : b.Vets ⟨q, options⟩ allowed wrap) (e : ε) :
    b.run q options = .error e ↔ ∃ reason, e = wrap reason ∧ q.FirstRefused allowed reason := by
  rw [← discard_eq_error_iff, h.run, mapError_eq_error_iff]
  simp only [q.check_eq_error_iff_firstRefused]

end Backend

/-! ## The two backends -/

/-- The predicate backend without aliases fails as `Vets` allows. An alias that stands for no
selector would be a further reason. -/
theorem Predicate.vets (q : Query) (ignoreCase : Bool) (allowed : Option (List String)) :
    Predicate.backend.Vets ⟨q, { ignoreCase, allowed }⟩ allowed .refused where
  start := rfl
  disjoin _ _ _ := rfl
  conjoin _ _ _ := rfl
  present _ _ := rfl
  equality _ _ _ _ := rfl
  finish _ _ _ := rfl
  adapt s v := by
    -- without aliases a permitted selector stands for itself
    show discard (do Predicate.ofCheck (s.permit allowed); .ok (s, v)) = _
    cases s.permit allowed <;> rfl
  comparison {s s' v v'} h op state := by
    -- this backend adapts selectors and leaves values alone
    have hvalue : v' = v := by
      obtain ⟨_, hadapt, hkept⟩ := exists_of_bind_eq_ok h
      obtain ⟨_, -, hsame⟩ := exists_of_bind_eq_ok hadapt
      cases hsame
      cases hkept
      rfl
    show discard (do return (← Predicate.ofCheck (Predicate.ofComparison s' op v'), state)) = _
    rw [hvalue, Predicate.ofComparison]
    cases op.demand v with
    | error reason => rfl
    | ok demand => cases demand <;> rfl

/-- A value in lower case is of the same kind as before, so a comparison with it demands the same.
-/
theorem demand_adapted (ignoreCase : Bool) (op : Comparison) (v : Literal) :
    op.demand (Sql.adapted ignoreCase v) = op.demand v := by
  cases ignoreCase with
  | false => rfl
  | true => cases op <;> cases v <;> rfl

/-- The statement backend with a table fails as `Vets` allows, with or without regard to case. -/
theorem Sql.vets (q : Query) {table : String} (htable : table ≠ "") (columns : List String)
    (allowed : Option (List String)) (ignoreCase : Bool) :
    Sql.backend.Vets ⟨q, { table, columns, allowed, ignoreCase }⟩ allowed .refused where
  start := by
    have hempty : ¬ table.isEmpty = true := fun h => htable (String.isEmpty_iff.1 h)
    show discard (if table.isEmpty then _ else _) = _
    rw [if_neg hempty]
    rfl
  disjoin _ _ _ := rfl
  conjoin _ _ _ := rfl
  present _ _ := rfl
  equality _ _ _ _ := rfl
  finish _ _ _ := rfl
  adapt s v := by
    show discard (do Sql.ofCheck (s.permit allowed); .ok _) = _
    cases s.permit allowed <;> rfl
  comparison {s s' v v'} h op state := by
    -- lower-casing a value does not change what a comparison with it demands
    obtain ⟨-, -, hvalue⟩ := Sql.adaptValue_eq_ok h
    show discard (Sql.ofCheck (Sql.ofComparison ignoreCase s' op v' state)) = _
    rw [Sql.ofComparison, hvalue, demand_adapted]
    cases op.demand v with
    | error reason => rfl
    | ok demand => cases demand <;> rfl

/-- The two backends succeed on the same queries, the ones without faults, and on all others fail
with the reason of the leftmost constraint with a fault. Without a table there is no statement. -/
theorem ofQuery_eq_error_iff_firstRefused (q : Query) (allowed : Option (List String))
    (ignoreCase ignoreCase' : Bool) {table : String} (htable : table ≠ "") (columns : List String) :
    let predicate := Predicate.ofQuery q { ignoreCase, allowed }
    let statement := Sql.ofQuery q { table, columns, allowed, ignoreCase := ignoreCase' }
    ((∃ p, predicate = .ok p) ↔ ∀ c ∈ q.constraints, ∀ reason, ¬ c.Faulty allowed reason) ∧
      ((∃ st, statement = .ok st) ↔ ∀ c ∈ q.constraints, ∀ reason, ¬ c.Faulty allowed reason) ∧
      (∀ e, predicate = .error e ↔ ∃ reason, e = .refused reason ∧ q.FirstRefused allowed reason) ∧
      (∀ e, statement = .error e ↔ ∃ reason, e = .refused reason ∧ q.FirstRefused allowed reason) ∧
      Sql.ofQuery q { table := "", columns, allowed, ignoreCase := ignoreCase' } =
        .error .missingTable := by
  have hpredicate := Predicate.vets q ignoreCase allowed
  have hstatement := Sql.vets q htable columns allowed ignoreCase'
  exact ⟨hpredicate.run_eq_ok_iff, hstatement.run_eq_ok_iff, hpredicate.run_eq_error_iff,
    hstatement.run_eq_error_iff, rfl⟩

/-- The first constraint with a fault has two of them, and a later one has a third. -/
theorem ofQuery_eq_error_iff_firstRefused_three_faults :
    let q : Query := .or
      (.and (.equality ⟨none, "name"⟩ .equal (.text "Jo*"))
        (.comparison ⟨none, "age"⟩ (.bound .less) (.bool true)))
      (.comparison ⟨none, "name"⟩ (.custom "like") (.text "Jo"))
    let reason : Refusal := .selectorNotPermitted "age"
    "people" ≠ "" ∧ q.FirstRefused (some ["name"]) reason ∧
      Predicate.ofQuery q { allowed := some ["name"] } = .error (.refused reason) ∧
      Sql.ofQuery q { table := "people", allowed := some ["name"], ignoreCase := true } =
        .error (.refused reason) := by
  intro q reason
  have htable : "people" ≠ "" := by decide
  obtain ⟨-, -, hpredicate, hstatement, -⟩ :=
    ofQuery_eq_error_iff_firstRefused q (some ["name"]) false true htable []
  obtain ⟨_, hreason, hfirst⟩ := (hpredicate (.refused reason)).1 rfl
  cases hreason
  exact ⟨htable, hfirst, rfl, (hstatement (.refused reason)).2 ⟨reason, rfl, hfirst⟩⟩

end FilterQuery
