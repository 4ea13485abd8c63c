import FilterQuery.Proofs.Backend.Refusals
import FilterQuery.Proofs.Number.Exactness
import FilterQuery.Proofs.Predicate.Compilation

/-!
# Constraints on numbers

A constraint with a number compares decimals. For numbers that their decimals keep, it is about the
numbers themselves (`accepts_iff_toRat`): all integers are such numbers, and so are the
floating-point numbers that `Fixed.Keeps` lists. Numbers that are too large for a decimal equal
nothing, not even themselves. Other floating-point numbers are rounded first, and two that are
different may be found equal (`accepts_and_toRat_ne`).
-/

namespace FilterQuery

/-- The relation that a bound asks for. -/
def Bound.Relates : Bound → ℚ → ℚ → Prop
  | .greater, a, b => a > b
  | .less, a, b => a < b
  | .greaterOrEqual, a, b => a ≥ b
  | .lessOrEqual, a, b => a ≤ b

/-- A bound accepts the outcomes of a comparison that its relation stands for. With it, what is said
of outcomes of comparisons is said of the numbers themselves. -/
theorem Bound.accepts_cmp_iff (bound : Bound) (a b : ℚ) :
    bound.accepts (cmp a b) = true ↔ bound.Relates a b := by
  cases bound with
  | greater => rw [accepts, beq_iff_eq, cmp_eq_gt_iff, Relates]
  | less => rw [accepts, beq_iff_eq, cmp_eq_lt_iff, Relates]
  | greaterOrEqual => rw [accepts, bne_iff_ne, Ne, cmp_eq_lt_iff, not_lt, Relates]
  | lessOrEqual => rw [accepts, bne_iff_ne, Ne, cmp_eq_gt_iff, not_lt, Relates]

namespace Predicate

/-- Numbers that their decimals keep are the same exactly if they denote the same. -/
theorem sameAs_number_iff (ignoreCase : Bool) {n b : Number} (hn : n.IsKept) (hb : b.IsKept) :
    sameAs ignoreCase (.number n) (.number b) = true ↔ n.toRat = b.toRat := by
  rw [sameAs, Number.sameValue_iff_compare?, Number.compare?_of_isKept hn hb, Option.some_inj,
    cmp_eq_eq_iff]

theorem candidates_plain {field : String} {doc value : Json}
    (h : doc.field? field = some value) : candidates ⟨none, field⟩ doc = [value] := by
  rw [candidates, h]
  rfl

/-- A number that is too large for a decimal is the same as no number. It is not even the same as
itself, so neither equality nor order constraints find it. -/
theorem sameAs_number_of_isTooLarge (ignoreCase : Bool) {n b : Number}
    (h : n.IsTooLarge ∨ b.IsTooLarge) : sameAs ignoreCase (.number n) (.number b) = false := by
  rw [sameAs, Bool.eq_false_iff, Ne, Number.sameValue_iff_compare?, Number.compare?_of_isTooLarge h]
  exact (Option.some_ne_none _).symm

/-- With one candidate, an equality constraint is the comparison with it. -/
theorem ofEquality_number_accepts (ignoreCase : Bool) {field : String} (b : Number) {doc : Json}
    {n : Number} (h : doc.field? field = some (.number n)) :
    (ofEquality ignoreCase ⟨none, field⟩ .equal (.number b)).accepts doc =
      sameAs ignoreCase (.number n) (.number b) := by
  show (((candidates ⟨none, field⟩ doc).any fun c =>
    [Literal.number b].any (sameAs ignoreCase c)) != false) = _
  rw [candidates_plain h]
  simp only [List.any_cons, List.any_nil, Bool.or_false, Bool.bne_false]

/-- With one candidate, an order constraint is the outcome of the comparison with it. -/
theorem compare_number_accepts {field : String} (bound : Bound) (b : Number) {doc : Json}
    {n : Number} (h : doc.field? field = some (.number n)) :
    (compare ⟨none, field⟩ bound (.number b)).accepts doc = (n.compare? b).any bound.accepts := by
  rw [accepts, candidates_plain h]
  simp only [List.any_cons, List.any_nil, Bool.or_false, compareWith?]

/-- An equality or order constraint with a number on a plain selector has a predicate if the
selector is permitted. If their decimals keep the number of a document and the one of the query, the
predicate compares them as rational numbers; if one of them is too large for a decimal, it accepts
nothing. -/
theorem accepts_iff_toRat {field : String} {allowed : Option (List String)}
    (hallowed : ¬ Selector.Barred allowed ⟨none, field⟩) (ignoreCase : Bool) (b : Number) :
    (∃ p, ofQuery (.equality ⟨none, field⟩ .equal (.number b)) { ignoreCase, allowed } = .ok p ∧
      ∀ doc n, doc.field? field = some (.number n) →
        (n.IsKept → b.IsKept → (p.accepts doc = true ↔ n.toRat = b.toRat)) ∧
        (n.IsTooLarge ∨ b.IsTooLarge → p.accepts doc = false)) ∧
    ∀ bound, ∃ p,
      ofQuery (.comparison ⟨none, field⟩ (.bound bound) (.number b)) { ignoreCase, allowed } =
        .ok p ∧
      ∀ doc n, doc.field? field = some (.number n) →
        (n.IsKept → b.IsKept → (p.accepts doc = true ↔ bound.Relates n.toRat b.toRat)) ∧
        (n.IsTooLarge ∨ b.IsTooLarge → p.accepts doc = false) := by
  have hresolve := resolve_of_permit (Query.permit_eq_ok hallowed) ignoreCase
  constructor
  -- both kinds of constraints have a predicate because the selector is permitted
  · refine ⟨_, ofQuery_eq_ok_iff.2 (.equality hresolve), ?_⟩
    intro doc n hdoc
    rw [ofEquality_number_accepts ignoreCase b hdoc]
    exact ⟨sameAs_number_iff ignoreCase, sameAs_number_of_isTooLarge ignoreCase⟩
  · intro bound
    refine ⟨_, ofQuery_eq_ok_iff.2 (.comparison hresolve rfl), ?_⟩
    intro doc n hdoc
    rw [compare_number_accepts bound b hdoc]
    constructor
    · intro hn hb
      rw [Number.compare?_of_isKept hn hb, Option.any_some, Bound.accepts_cmp_iff]
    · intro h
      rw [Number.compare?_of_isTooLarge h, Option.any_none]

/-- The value of a number whose three fields are known, as they are for a fixed number. -/
theorem toRat_of_fields {x : Binary64} {m : ℕ} {e : ℤ}
    (h : (x.negative, x.significand, x.exponent) = (false, m, e)) : x.toRat = m * 2 ^ e := by
  simp only [Prod.mk.injEq] at h
  rw [Binary64.toRat, h.1, if_neg Bool.false_ne_true, Binary64.absRat, h.2.1, h.2.2]

/-- A floating-point number below an integer, and an integer that is not less than itself. -/
theorem accepts_iff_toRat_integer_and_float :
    ¬ Selector.Barred (some ["x"]) ⟨none, "x"⟩ ∧
      ∃ p, ofQuery (.comparison ⟨none, "x"⟩ (.bound .less) (.number (.integer 3)))
          { allowed := some ["x"] } = .ok p ∧
        p.accepts (.object [("x", .number (.float (.ofScientific false 25 (-1))))]) = true ∧
        p.accepts (.object [("x", .number (.integer 3))]) = false := by
  have hallowed : ¬ Selector.Barred (some ["x"]) ⟨none, "x"⟩ := by
    rintro ⟨paths, hpaths, hbarred⟩
    cases hpaths
    exact hbarred List.mem_cons_self
  have hvalue : (Binary64.ofScientific false 25 (-1)).toRat = 5 / 2 := by
    rw [toRat_of_fields (by decide +kernel : _ = (false, 5629499534213120, -51))]
    norm_num
  -- one place and the coefficient 25
  have hkept : (Number.float (.ofScientific false 25 (-1))).IsKept := by
    refine ⟨by decide +kernel, 25, 1, ?_, .inr (by decide)⟩
    rw [hvalue]
    norm_num
  obtain ⟨p, hp, haccepts⟩ := (accepts_iff_toRat hallowed false (.integer 3)).2 .less
  refine ⟨hallowed, p, hp, ?_, ?_⟩
  · refine ((haccepts _ _ rfl).1 hkept trivial).2 ?_
    show (Binary64.ofScientific false 25 (-1)).toRat < ((3 : ℤ) : ℚ)
    rw [hvalue]
    norm_num
  · refine eq_false_of_ne_true fun h => ?_
    have hless := ((haccepts (.object [("x", .number (.integer 3))]) (.integer 3) rfl).1 trivial
      trivial).1 h
    exact lt_irrefl _ hless

/-- `0.30000000000000004` is the number next to `0.3`, and both have the decimal `0.3`. -/
theorem accepts_and_toRat_ne :
    ∃ p, ofQuery (.equality ⟨none, "x"⟩ .equal (Literal.ofWord "0.3")) {} = .ok p ∧
      p.accepts (.object [("x", .number (.float (.ofScientific false 30000000000000004 (-17))))]) =
        true ∧
      Literal.ofWord "0.3" = .number (.float (.ofScientific false 3 (-1))) ∧
      (Number.float (.ofScientific false 30000000000000004 (-17))).toRat ≠
        (Number.float (.ofScientific false 3 (-1))).toRat := by
  refine ⟨_, rfl, by decide +kernel, by decide +kernel, ?_⟩
  show (Binary64.ofScientific false 30000000000000004 (-17)).toRat ≠
    (Binary64.ofScientific false 3 (-1)).toRat
  rw [toRat_of_fields (by decide +kernel : _ = (false, 5404319552844596, -54)),
    toRat_of_fields (by decide +kernel : _ = (false, 5404319552844595, -54))]
  norm_num

end Predicate

end FilterQuery
