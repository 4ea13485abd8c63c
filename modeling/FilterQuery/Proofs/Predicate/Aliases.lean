import FilterQuery.Proofs.Backend.Refusals
import FilterQuery.Proofs.Predicate.Compilation

/-!
# Aliases are a substitution

A query with aliases means the query in which every alias has been replaced by what it stands for.
The list of permitted selectors is about the query as it is written, so what an alias stands for need
not be on it.

* `resolve_eq_ok_iff`: a selector is resolved if it is permitted as it is written and its alias, if it
  has one, stands for a selector. Nothing is looked up for the selector that it is replaced by.
* `compiles_iff_substitute`: so all checks can be made in advance, and what is left is the replaced
  query without any options but the one on case.
* `exists_compiles_mapSelectors_iff`: whether a query has a predicate does not depend on the names of
  its selectors, as far as no check asks for them.
-/

namespace FilterQuery

/-- The query with every selector replaced by its image under `f`. -/
def Query.mapSelectors (f : Selector → Selector) : Query → Query
  | or l r => or (l.mapSelectors f) (r.mapSelectors f)
  | and l r => and (l.mapSelectors f) (r.mapSelectors f)
  | present s => present (f s)
  | equality s op v => equality (f s) op v
  | comparison s op v => comparison (f s) op v

namespace Predicate

/-- What takes the place of a selector: the selector that its alias stands for, if it has one. -/
def substitute (aliases : List (String × String)) (s : Selector) : Selector :=
  match aliases.lookup s.path with
  | some target => (Selector.ofPath? target).getD s
  | none => s

/-- If the selector has an alias, the alias stands for a selector. -/
def ValidAlias (aliases : List (String × String)) (s : Selector) : Prop :=
  ∀ target, aliases.lookup s.path = some target → ∃ s', Selector.ofPath? target = some s'

/-! ## Single selectors -/

/-- The look-up of an alias gives a selector exactly if the alias, where there is one, stands for a
selector, and then it gives what takes the place of the selector. -/
theorem resolveAlias_eq_ok_iff {aliases : List (String × String)} {s s' : Selector} :
    resolveAlias aliases s = .ok s' ↔ ValidAlias aliases s ∧ s' = substitute aliases s := by
  unfold resolveAlias ValidAlias substitute
  cases aliases.lookup s.path with
  | none => simp [eq_comm]
  | some target =>
    simp only [Option.some.injEq, forall_eq']
    cases Selector.ofPath? target <;> simp [eq_comm]

/-- A selector is resolved exactly if it is permitted as it is written and its alias is valid. What
it is resolved to is not checked against the list and not looked up again. -/
theorem resolve_eq_ok_iff {options : Options} {s s' : Selector} :
    options.resolve s = .ok s' ↔
      (¬ s.Barred options.allowed ∧ ValidAlias options.aliases s) ∧
        s' = substitute options.aliases s := by
  rw [Options.resolve, and_assoc, ← resolveAlias_eq_ok_iff]
  rcases Query.permit_eq options.allowed s with ⟨hbarred, hpermit⟩ | ⟨hbarred, hpermit⟩
  · rw [hpermit]
    refine iff_of_false (fun h => ?_) fun h => h.1 hbarred
    cases h
  · rw [hpermit]
    exact (and_iff_right hbarred).symm

/-- Without a list and without aliases, every selector is taken as it is. -/
theorem resolve_plain_eq_ok_iff {ignoreCase : Bool} {s s' : Selector} :
    Options.resolve { ignoreCase } s = .ok s' ↔ s' = s := by
  show Except.ok s = .ok s' ↔ s' = s
  rw [Except.ok.injEq, eq_comm]

/-! ## Queries -/

/-- All checks on selectors can be made in advance, on the query as it is written. What remains then
is the query with its aliases replaced, which no check looks at any more. -/
theorem compiles_iff_substitute {options : Options} {q : Query} {p : Predicate} :
    Compiles options q p ↔
      (∀ s ∈ q.selectors, ¬ s.Barred options.allowed ∧ ValidAlias options.aliases s) ∧
        Compiles { ignoreCase := options.ignoreCase }
          (q.mapSelectors (substitute options.aliases)) p := by
  induction q generalizing p with
  | or l r ihl ihr
  | and l r ihl ihr =>
    simp only [Query.selectors, Query.mapSelectors, List.forall_mem_append, compiles_or_iff,
      compiles_and_iff, ihl, ihr]
    constructor
    · rintro ⟨left, right, ⟨hl, hleft⟩, ⟨hr, hright⟩, rfl⟩
      exact ⟨⟨hl, hr⟩, left, right, hleft, hright, rfl⟩
    · rintro ⟨⟨hl, hr⟩, left, right, hleft, hright, rfl⟩
      exact ⟨left, right, ⟨hl, hleft⟩, ⟨hr, hright⟩, rfl⟩
  -- both sides reduce to the checks on the one selector and the same condition on the rest
  | present s
  | equality s op v
  | comparison s op v =>
    simp only [Query.selectors, Query.mapSelectors, List.forall_mem_singleton,
      compiles_present_iff, compiles_equality_iff, compiles_comparison_iff, resolve_plain_eq_ok_iff]
    simp only [resolve_eq_ok_iff, and_assoc, exists_and_left, exists_eq_left]

/-- Whether an operator takes a value does not depend on the selector, which only ends up in the
predicate. This is why renaming selectors cannot make an order constraint fail. -/
theorem exists_ofComparison_iff (s s' : Selector) {op : Comparison} {v : Literal} :
    (∃ p, ofComparison s op v = .ok p) ↔ ∃ p, ofComparison s' op v = .ok p := by
  unfold ofComparison
  cases op.demand v with
  | ok demand => cases demand <;> exact iff_of_true ⟨_, rfl⟩ ⟨_, rfl⟩
  | error reason => exact iff_of_false nofun nofun

/-- Where no check asks for them, the names of its selectors do not decide whether a query has a
predicate. -/
theorem exists_compiles_mapSelectors_iff {ignoreCase : Bool} (f : Selector → Selector) (q : Query) :
    (∃ p, Compiles { ignoreCase } (q.mapSelectors f) p) ↔ ∃ p, Compiles { ignoreCase } q p := by
  have hjoin {l r : Query} {join : Predicate → Predicate → Predicate} :
      (∃ p left right, Compiles { ignoreCase } l left ∧ Compiles { ignoreCase } r right ∧
          p = join left right) ↔
        (∃ p, Compiles { ignoreCase } l p) ∧ ∃ p, Compiles { ignoreCase } r p := by
    constructor
    · rintro ⟨-, left, right, hl, hr, -⟩
      exact ⟨⟨left, hl⟩, right, hr⟩
    · rintro ⟨⟨left, hl⟩, right, hr⟩
      exact ⟨_, left, right, hl, hr, rfl⟩
  -- only an order constraint can fail here, and its selector has no part in that
  induction q with
  | or l r ihl ihr
  | and l r ihl ihr =>
    simp only [Query.mapSelectors, compiles_or_iff, compiles_and_iff, hjoin, ihl, ihr]
  | present s
  | equality s op v =>
    simp only [Query.mapSelectors, compiles_present_iff, compiles_equality_iff,
      resolve_plain_eq_ok_iff, exists_eq_left, exists_eq]
  | comparison s op v =>
    simp only [Query.mapSelectors, compiles_comparison_iff, resolve_plain_eq_ok_iff,
      exists_eq_left]
    exact exists_ofComparison_iff (f s) s

/-- A query has a predicate exactly if all its selectors pass their checks and it has one without
any. The two parts have nothing to do with each other, which is what lets an alias be left out
below. -/
theorem exists_compiles_iff (options : Options) (q : Query) :
    (∃ p, Compiles options q p) ↔
      (∀ s ∈ q.selectors, ¬ s.Barred options.allowed ∧ ValidAlias options.aliases s) ∧
        ∃ p, Compiles { ignoreCase := options.ignoreCase } q p := by
  rw [← exists_compiles_mapSelectors_iff (substitute options.aliases) q, ← exists_and_left]
  exact exists_congr fun p => compiles_iff_substitute

/-- **Aliases are one substitution, made after the check.** A query has a predicate exactly if it has
one without aliases, under the same list of permitted selectors, and the aliases of its selectors
stand for selectors. The predicate is the one that the query has, without list and aliases, after
every selector with an alias has been replaced by what the alias stands for; nothing is asked of what
stands there then, neither to be on the list nor to have no alias of its own. -/
theorem ofQuery_eq_ok_iff_substitute (q : Query) (options : Options) :
    ((∃ p, ofQuery q options = .ok p) ↔
      (∃ p, ofQuery q { options with aliases := [] } = .ok p) ∧
        ∀ s ∈ q.selectors, ValidAlias options.aliases s) ∧
    ∀ p, ofQuery q options = .ok p ↔
      (∀ s ∈ q.selectors, ¬ s.Barred options.allowed) ∧
        (∀ s ∈ q.selectors, ValidAlias options.aliases s) ∧
        ofQuery (q.mapSelectors (substitute options.aliases)) { ignoreCase := options.ignoreCase } =
          .ok p := by
  simp only [ofQuery_eq_ok_iff]
  constructor
  -- both sides come down to the checks and the query without any; an empty list has no alias to
  -- check
  · rw [exists_compiles_iff options, exists_compiles_iff { options with aliases := [] }]
    constructor
    · rintro ⟨hselectors, hq⟩
      exact ⟨⟨fun s hs => ⟨(hselectors s hs).1, nofun⟩, hq⟩, fun s hs => (hselectors s hs).2⟩
    · rintro ⟨⟨hpermitted, hq⟩, hvalid⟩
      exact ⟨fun s hs => ⟨(hpermitted s hs).1, hvalid s hs⟩, hq⟩
  · intro p
    rw [compiles_iff_substitute]
    constructor
    · rintro ⟨hselectors, hp⟩
      exact ⟨fun s hs => (hselectors s hs).1, fun s hs => (hselectors s hs).2, hp⟩
    · rintro ⟨hpermitted, hvalid, hp⟩
      exact ⟨fun s hs => ⟨hpermitted s hs, hvalid s hs⟩, hp⟩

/-- Two names that stand for one another, of which each is looked up once, and a name that stands for
one that is not permitted. -/
theorem ofQuery_eq_ok_iff_substitute_swapped_names :
    let options : Options :=
      { ignoreCase := true
        allowed := some ["a", "b", "c"]
        aliases := [("a", "b"), ("b", "a"), ("c", "d.e")] }
    let q : Query := .and (.or (.present ⟨none, "a"⟩) (.present ⟨none, "b"⟩))
      (.comparison ⟨none, "c"⟩ (.bound .less) (.text "x"))
    let replaced : Query := .and (.or (.present ⟨none, "b"⟩) (.present ⟨none, "a"⟩))
      (.comparison ⟨some "d", "e"⟩ (.bound .less) (.text "x"))
    ∃ p, ofQuery q options = .ok p ∧ ofQuery replaced { ignoreCase := true } = .ok p ∧
      ¬ ∃ p, ofQuery replaced options = .ok p := by
  intro options q replaced
  obtain ⟨p, hp⟩ : ∃ p, ofQuery q options = .ok p := ⟨_, rfl⟩
  have hsubstitute : q.mapSelectors (substitute options.aliases) = replaced := by decide
  obtain ⟨-, -, hreplaced⟩ := ((ofQuery_eq_ok_iff_substitute q options).2 p).1 hp
  rw [hsubstitute] at hreplaced
  refine ⟨p, hp, hreplaced, fun ⟨p', hp'⟩ => ?_⟩
  -- what the last name stands for is not permitted as a name of the query
  obtain ⟨hpermitted, -, -⟩ := ((ofQuery_eq_ok_iff_substitute replaced options).2 p').1 hp'
  exact hpermitted ⟨some "d", "e"⟩ (by decide) ⟨["a", "b", "c"], rfl, by decide⟩

end Predicate

end FilterQuery
