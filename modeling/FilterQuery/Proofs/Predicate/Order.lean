import FilterQuery.Proofs.Number.Exactness
import FilterQuery.Proofs.Predicate.Equality
import FilterQuery.Proofs.Predicate.IgnoringCase

/-!
# Order and equality fit together

Order constraints compare a candidate with the value, equality has a test of its own, and both are
asked of all candidates of a document. They fit together because the test for equality is one of the
outcomes of the comparison (`sameAs_iff_compareWith?`), as long as case counts:

* "at most" is "less or equal", and "at least" is "greater or equal", for one and the same candidate
  (`accepts_compare_iff_or`);
* of a single candidate, one of "less", "equal" and "greater" holds if it can be compared with the
  value, and none holds if it cannot (`countP_accepts`). Two texts can always be compared, two
  numbers can unless one of them is too large for a decimal (`isSome_compareWith?_iff`);
* an integer that bounds a candidate is bounded by the integers beyond it in the same direction
  (`compareWith?_integer_mono`).
-/

namespace FilterQuery

namespace Predicate

/-- The candidate and the value are two texts, or two numbers of which none is too large for a
decimal. No integer is. -/
def Comparable : Json → Literal → Prop
  | .string _, .text _ => True
  | .number a, .number b => ¬ a.IsTooLarge ∧ ¬ b.IsTooLarge
  | _, _ => False

/-! ## A candidate and a value -/

theorem compareText_eq_eq_iff {a b : String} : compareText a b = .eq ↔ a = b := by
  constructor
  · intro h
    refine Decidable.byContradiction fun hne => ?_
    -- different texts are less or greater
    rcases compareText_of_ne hne with ⟨hab, -⟩ | ⟨hab, -⟩
    all_goals
      rw [hab] at h
      cases h
  · rintro rfl
    exact compareText_self a

/-- To be equal is one of the outcomes of a comparison. So equality and order constraints are about
one notion, and their laws follow from the outcomes. -/
theorem sameAs_iff_compareWith? {c : Json} {v : Literal} (hv : v.isOrdered = true) :
    sameAs false c v = true ↔ compareWith? c v = some .eq := by
  cases v with
  -- two tests of two decimals, which agree
  | number b =>
    cases c with
    | number a => exact Number.sameValue_iff_compare? a b
    | _ => exact iff_of_false Bool.false_ne_true (Option.some_ne_none _).symm
  | text b =>
    cases c with
    | string a =>
      rw [compareWith?, Option.some_inj, compareText_eq_eq_iff]
      exact beq_iff_eq
    | _ => exact iff_of_false Bool.false_ne_true (Option.some_ne_none _).symm
  | bool | list => cases hv

/-- Two texts have an order, two numbers have one unless one of them is too large, and values of
different kinds have none. -/
theorem isSome_compareWith?_iff {c : Json} {v : Literal} :
    (compareWith? c v).isSome = true ↔ Comparable c v := by
  cases c with
  | number a =>
    cases v with
    | number b =>
      rw [Comparable, Number.isTooLarge_iff, Number.isTooLarge_iff, compareWith?, Number.compare?]
      cases a.toFixed? <;> cases b.toFixed? <;> simp
    | _ => exact iff_of_false Bool.false_ne_true id
  | string a =>
    cases v with
    | text b => exact iff_of_true rfl trivial
    | _ => exact iff_of_false Bool.false_ne_true id
  | _ => exact iff_of_false Bool.false_ne_true id

/-- How a candidate compares with an integer depends on its decimal alone. -/
theorem compareWith?_integer_iff {c : Json} {n : Int} {o : Ordering} :
    compareWith? c (.number (.integer n)) = some o ↔
      ∃ a d, c = .number a ∧ a.toFixed? = some d ∧ cmp d.toRat n = o := by
  cases c with
  | number a =>
    -- an integer has a decimal, so it depends on the candidate whether there is an outcome
    have hfixed : (Number.integer n).toFixed? = some (.ofInt n) := rfl
    rw [compareWith?, Number.compare?, hfixed]
    cases hd : a.toFixed? with
    | none =>
      refine iff_of_false (Option.some_ne_none _).symm ?_
      rintro ⟨_, _, ⟨⟩, hd', -⟩
      cases hd.symm.trans hd'
    | some d =>
      rw [Option.some_inj, Fixed.compare_eq_cmp, Fixed.toRat_ofInt]
      constructor
      · exact fun ho => ⟨a, d, rfl, hd, ho⟩
      · rintro ⟨_, _, ⟨⟩, hd', ho⟩
        cases hd.symm.trans hd'
        exact ho
  | _ =>
    refine iff_of_false (Option.some_ne_none _).symm ?_
    rintro ⟨a, d, hc, -⟩
    cases hc

/-- What lies below an integer lies below every greater one, and the other way round. That is so
although the candidate may be known by its decimal only, which is rounded. -/
theorem compareWith?_integer_mono {c : Json} {u w : Int} (h : u < w) :
    (compareWith? c (.number (.integer u)) = some .lt →
        compareWith? c (.number (.integer w)) = some .lt) ∧
      (compareWith? c (.number (.integer w)) = some .gt →
        compareWith? c (.number (.integer u)) = some .gt) := by
  have hcast : (u : ℚ) < w := Int.cast_lt.2 h
  constructor
  · intro hless
    obtain ⟨a, d, hc, hd, hlt⟩ := compareWith?_integer_iff.1 hless
    rw [cmp_eq_lt_iff] at hlt
    exact compareWith?_integer_iff.2 ⟨a, d, hc, hd, (cmp_eq_lt_iff _ _).2 (hlt.trans hcast)⟩
  · intro hgreater
    obtain ⟨a, d, hc, hd, hgt⟩ := compareWith?_integer_iff.1 hgreater
    rw [cmp_eq_gt_iff] at hgt
    exact compareWith?_integer_iff.2 ⟨a, d, hc, hd, (cmp_eq_gt_iff _ _).2 (hcast.trans hgt)⟩

/-! ## Constraints -/

/-- An order constraint with a number or a text has a predicate as soon as its selector is resolved.
-/
theorem ofQuery_bound {options : Options} {s s' : Selector} (hs : options.resolve s = .ok s')
    (bound : Bound) {v : Literal} (hv : v.isOrdered = true) :
    ofQuery (.comparison s (.bound bound) v) options = .ok (.compare s' bound v) := by
  refine ofQuery_eq_ok_iff.2 (.comparison hs ?_)
  rw [ofComparison, Comparison.demand, if_pos hv]

section

variable {s : Selector} {doc : Json} {v : Literal}

/-- An order constraint accepts a document for one candidate with an outcome that the bound accepts.
-/
theorem accepts_compare_iff {bound : Bound} :
    (compare s bound v).accepts doc = true ↔
      ∃ c ∈ candidates s doc, ∃ o, compareWith? c v = some o ∧ bound.accepts o = true := by
  simp only [accepts, List.any_eq_true, Option.any_eq_true]

/-- Equality, said with the same outcomes as the order constraints. -/
theorem accepts_equal_iff (hordered : v.isOrdered = true) (hplain : v.IsPlain) :
    (ofEquality false s .equal v).accepts doc = true ↔
      ∃ c ∈ candidates s doc, compareWith? c v = some .eq := by
  simp only [accepts_plain_iff hplain, sameAs_iff_compareWith? hordered]

/-- A bound that accepts one outcome more than another one, to be equal, joins it with equality.
With several candidates the two sides may be satisfied by different ones, and the law holds all the
same. -/
theorem accepts_compare_iff_or {strict weak : Bound}
    (hweak : ∀ o, weak.accepts o = true ↔ strict.accepts o = true ∨ o = .eq)
    (hordered : v.isOrdered = true) (hplain : v.IsPlain) :
    (compare s weak v).accepts doc = true ↔
      (compare s strict v).accepts doc = true ∨
        (ofEquality false s .equal v).accepts doc = true := by
  rw [accepts_compare_iff, accepts_compare_iff, accepts_equal_iff hordered hplain]
  constructor
  · rintro ⟨c, hc, o, ho, haccepts⟩
    -- the outcome is found for one candidate, and for the same one on the other side
    rcases (hweak o).1 haccepts with hstrict | rfl
    · exact .inl ⟨c, hc, o, ho, hstrict⟩
    · exact .inr ⟨c, hc, ho⟩
  · rintro (⟨c, hc, o, ho, hstrict⟩ | ⟨c, hc, ho⟩)
    · exact ⟨c, hc, o, ho, (hweak o).2 (.inl hstrict)⟩
    · exact ⟨c, hc, .eq, ho, (hweak .eq).2 (.inr rfl)⟩

/-- The constraints that a single candidate satisfies are those of the outcome of its comparison. An
outcome satisfies one of less, equal and greater, so the number of constraints is fixed by it. -/
theorem countP_accepts {c : Json} (hc : candidates s doc = [c]) (hordered : v.isOrdered = true)
    (hplain : v.IsPlain) :
    [compare s .less v, ofEquality false s .equal v, compare s .greater v].countP
      (·.accepts doc) = if (compareWith? c v).isSome then 1 else 0 := by
  have hbound (bound : Bound) :
      (compare s bound v).accepts doc = (compareWith? c v).any bound.accepts := by
    rw [accepts, hc, List.any_cons, List.any_nil, Bool.or_false]
  have hequal : (ofEquality false s .equal v).accepts doc =
      (compareWith? c v).any (· == .eq) := by
    rw [Bool.eq_iff_iff, accepts_equal_iff hordered hplain, hc, Option.any_eq_true]
    simp
  simp only [List.countP_cons, List.countP_nil, hbound, hequal]
  -- without an outcome none of the three accepts; otherwise the one of the outcome does
  cases compareWith? c v with
  | none => rfl
  | some o => cases o <;> rfl

/-- If every candidate with an accepted outcome has the same outcome for another value, the
constraint with that value accepts as well. -/
theorem accepts_compare_of_forall {bound : Bound} {v w : Literal}
    (h : ∀ c o, compareWith? c v = some o → bound.accepts o = true → compareWith? c w = some o) :
    (compare s bound v).accepts doc = true → (compare s bound w).accepts doc = true := by
  rw [accepts_compare_iff, accepts_compare_iff]
  rintro ⟨c, hc, o, ho, haccepts⟩
  exact ⟨c, hc, o, h c o ho haccepts, haccepts⟩

end

/-- **Order and equality fit together.** If its selector is permitted and stands for a selector, an
equality constraint has a predicate, and so has an order constraint with a number or a text. Where
case counts and the value is a number or a text without a star,

* "at most" accepts what "less" or "equal" accepts, and "at least" what "greater" or "equal" does;
* of a document in which the selector points at one value, at most one of "less", "equal" and
  "greater" accepts, and exactly one does if and only if the two can be compared, as two texts and
  two integers can;
* what is less than an integer is less than every greater one, and what is greater than an integer
  is greater than every smaller one. -/
theorem accepts_orEqual_iff_and_countP {options : Options} (hcase : options.ignoreCase = false)
    {s s' : Selector} (hs : options.resolve s = .ok s') :
    ∃ (equal : Literal → Predicate) (ordered : Bound → Literal → Predicate),
      (∀ v, ofQuery (.equality s .equal v) options = .ok (equal v)) ∧
      (∀ bound v, v.isOrdered = true →
        ofQuery (.comparison s (.bound bound) v) options = .ok (ordered bound v)) ∧
      (∀ v doc, v.isOrdered = true → v.IsPlain →
        ((ordered .lessOrEqual v).accepts doc = true ↔
          (ordered .less v).accepts doc = true ∨ (equal v).accepts doc = true) ∧
        ((ordered .greaterOrEqual v).accepts doc = true ↔
          (ordered .greater v).accepts doc = true ∨ (equal v).accepts doc = true) ∧
        ∀ c, candidates s' doc = [c] →
          let accepting := [ordered .less v, equal v, ordered .greater v].countP (·.accepts doc)
          accepting ≤ 1 ∧ (accepting = 1 ↔ Comparable c v)) ∧
      ∀ (u w : Int) doc, u < w →
        ((ordered .less (.number (.integer u))).accepts doc = true →
          (ordered .less (.number (.integer w))).accepts doc = true) ∧
        ((ordered .greater (.number (.integer w))).accepts doc = true →
          (ordered .greater (.number (.integer u))).accepts doc = true) := by
  refine ⟨ofEquality false s' .equal, compare s', ?_, ?_, ?_, ?_⟩
  · intro v
    rw [ofQuery_equality hs, hcase]
  · exact fun bound v hv => ofQuery_bound hs bound hv
  · intro v doc hordered hplain
    refine ⟨accepts_compare_iff_or ?_ hordered hplain, accepts_compare_iff_or ?_ hordered hplain,
      fun c hc => ?_⟩
    · intro o
      cases o <;> decide
    · intro o
      cases o <;> decide
    · simp only [countP_accepts hc hordered hplain, ← isSome_compareWith?_iff]
      cases (compareWith? c v).isSome <;> decide
  · intro u w doc hlt
    constructor
    · refine accepts_compare_of_forall fun c o ho haccepts => ?_
      cases eq_of_beq haccepts
      exact (compareWith?_integer_mono hlt).1 ho
    · refine accepts_compare_of_forall fun c o ho haccepts => ?_
      cases eq_of_beq haccepts
      exact (compareWith?_integer_mono hlt).2 ho

/-- A text behind an alias, and a document in which the selector points at two numbers. -/
theorem accepts_orEqual_iff_and_countP_text_and_integers :
    let options : Options := { allowed := some ["city"], aliases := [("city", "address.town")] }
    let town : Json := .object [("address", .array [.object [("town", .string "Oslo")]])]
    let towns : Json := .object [("address", .array
      [.object [("town", .number (.integer 7))], .object [("town", .number (.integer 2))]])]
    options.ignoreCase = false ∧
      options.resolve ⟨none, "city"⟩ = .ok ⟨some "address", "town"⟩ ∧
      ∃ less equal greater atMost below,
        ofQuery (.comparison ⟨none, "city"⟩ (.bound .less) (.text "Rome")) options = .ok less ∧
        ofQuery (.equality ⟨none, "city"⟩ .equal (.text "Rome")) options = .ok equal ∧
        ofQuery (.comparison ⟨none, "city"⟩ (.bound .greater) (.text "Rome")) options =
          .ok greater ∧
        ofQuery (.comparison ⟨none, "city"⟩ (.bound .lessOrEqual) (.text "Rome")) options =
          .ok atMost ∧
        ofQuery (.comparison ⟨none, "city"⟩ (.bound .less) (.number (.integer 5))) options =
          .ok below ∧
        [less, equal, greater].countP (·.accepts town) = 1 ∧
        atMost.accepts town = true ∧ below.accepts towns = true := by
  intro options town towns
  have hs : options.resolve ⟨none, "city"⟩ = .ok ⟨some "address", "town"⟩ := rfl
  obtain ⟨equal, ordered, hequal, hordered, hlaws, hmono⟩ := accepts_orEqual_iff_and_countP rfl hs
  have hplain : '*' ∉ "Rome".toList := by decide
  obtain ⟨hatMost, -, hcount⟩ := hlaws (.text "Rome") town rfl hplain
  refine ⟨rfl, hs, _, _, _, _, _, hordered _ _ rfl, hequal _, hordered _ _ rfl, hordered _ _ rfl,
    hordered _ _ rfl, (hcount (.string "Oslo") rfl).2.2 trivial, hatMost.2 (.inl ?_),
    (hmono 3 5 towns (by decide)).1 ?_⟩
  · rw [← Except.ok.inj (hordered .less (.text "Rome") rfl)]
    decide
  · rw [← Except.ok.inj (hordered .less (.number (.integer 3)) rfl)]
    decide

end Predicate

end FilterQuery
