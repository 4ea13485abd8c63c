import FilterQuery.Proofs.Predicate.Order

/-!
# Presence, null and negation

A selector may point at nothing, at null, or at many values at once, and each constraint decides in
its own way what that means: some ask for one candidate, others ask it of all. Yet they never leave a
document undecided, and they never accept one for nothing:

* a negated equality constraint accepts the documents that the constraint itself does not
  (`accepts_notEqual`, for all kinds of values);
* to be null is not to be present (`accepts_isNull`), although "null" asks all candidates and
  "present" asks for one;
* what an equality or order constraint accepts, it accepts for a candidate that is not null
  (`accepts_present_of_accepts_equality`, `accepts_present_of_accepts_compare`).
-/

namespace FilterQuery.Predicate

/-! ## Candidates that satisfy a constraint -/

/-- A candidate that equals a value is not null, since no value of a query is null. -/
theorem isNull_eq_false_of_sameAs {ignoreCase : Bool} {c : Json} {v : Literal}
    (h : sameAs ignoreCase c v = true) : c.isNull = false := by
  cases c with
  | null => cases h
  | _ => rfl

theorem isNull_eq_false_of_compareWith? {c : Json} {v : Literal} {o : Ordering}
    (h : compareWith? c v = some o) : c.isNull = false := by
  cases c with
  | null => cases h
  | _ => rfl

/-! ## Constraints -/

section

variable {ignoreCase : Bool} {s : Selector} {doc : Json}

/-- A selector alone asks for a candidate that is not null. It may be one of many, and the others
may be null. -/
theorem accepts_present_iff :
    (present s).accepts doc = true ↔ ∃ c ∈ candidates s doc, c.isNull = false := by
  simp only [accepts, List.any_eq_true, Bool.not_eq_true']

/-- A test for null is the opposite of presence, or presence itself if it is told to expect false. A
selector that points at nothing counts as null: there is no candidate that could be anything else.
-/
theorem accepts_isNull (expected : Bool) :
    (isNull s expected).accepts doc = ((present s).accepts doc != expected) := by
  -- that all candidates are null is that none is something else
  have hall : (candidates s doc).all (·.isNull) = !(present s).accepts doc :=
    List.all_eq_not_any_not
  show ((candidates s doc).all (·.isNull) == expected) = _
  rw [hall]
  cases (present s).accepts doc <;> cases expected <;> rfl

/-- What an equality constraint accepts, it accepts for a candidate that is not null, whether it
compares values, looks through a list or matches a glob. -/
theorem accepts_present_of_accepts_equality {v : Literal}
    (h : (ofEquality ignoreCase s .equal v).accepts doc = true) :
    (present s).accepts doc = true := by
  have hsingle (hv : v.IsPlain) : (present s).accepts doc = true := by
    obtain ⟨c, hc, hsame⟩ := (accepts_plain_iff hv).1 h
    exact accepts_present_iff.2 ⟨c, hc, isNull_eq_false_of_sameAs hsame⟩
  cases v with
  | bool | number => exact hsingle trivial
  | text t =>
    by_cases hstar : Glob.star ∈ t.toList
    · -- a glob accepts texts only
      obtain ⟨text, hc, -⟩ := (accepts_star_iff hstar).1 h
      exact accepts_present_iff.2 ⟨.string text, hc, rfl⟩
    · exact hsingle hstar
  | list values =>
    obtain ⟨c, hc, v, -, hsame⟩ := accepts_list_iff.1 h
    exact accepts_present_iff.2 ⟨c, hc, isNull_eq_false_of_sameAs hsame⟩

/-- What an order constraint accepts, it accepts for a candidate that is not null. -/
theorem accepts_present_of_accepts_compare {bound : Bound} {v : Literal}
    (h : (compare s bound v).accepts doc = true) : (present s).accepts doc = true := by
  obtain ⟨c, hc, o, ho, -⟩ := accepts_compare_iff.1 h
  exact accepts_present_iff.2 ⟨c, hc, isNull_eq_false_of_compareWith? ho⟩

end

/-- **Complements.** If its selector is permitted and stands for a selector, a constraint on it has a
predicate: the selector alone, a test for null, equality with any value, and order with a number or a
text. On every document, "not equal" accepts exactly if "equal" does not, "not null" accepts exactly
if the selector is present, and "null" exactly if it is not; and "equal", "less", "greater" and the
like accept only if it is present. -/
theorem accepts_notEqual_and_isNull {options : Options} {s s' : Selector}
    (hs : options.resolve s = .ok s') :
    ∃ (present isNull notNull : Predicate) (equality : Equality → Literal → Predicate)
      (ordered : Bound → Literal → Predicate),
      ofQuery (.present s) options = .ok present ∧
      ofQuery (.comparison s .isNull (.bool true)) options = .ok isNull ∧
      ofQuery (.comparison s .isNull (.bool false)) options = .ok notNull ∧
      (∀ op v, ofQuery (.equality s op v) options = .ok (equality op v)) ∧
      (∀ bound v, v.isOrdered = true →
        ofQuery (.comparison s (.bound bound) v) options = .ok (ordered bound v)) ∧
      ∀ doc,
        (∀ v, (equality .notEqual v).accepts doc = !(equality .equal v).accepts doc) ∧
        notNull.accepts doc = present.accepts doc ∧
        isNull.accepts doc = !present.accepts doc ∧
        (∀ v, (equality .equal v).accepts doc = true → present.accepts doc = true) ∧
        ∀ bound v, (ordered bound v).accepts doc = true → present.accepts doc = true := by
  refine ⟨.present s', .isNull s' true, .isNull s' false, ofEquality options.ignoreCase s',
    compare s', ofQuery_eq_ok_iff.2 (.present hs), ofQuery_eq_ok_iff.2 (.comparison hs rfl),
    ofQuery_eq_ok_iff.2 (.comparison hs rfl), ofQuery_equality hs,
    fun bound v hv => ofQuery_bound hs bound hv, fun doc => ?_⟩
  -- the predicates are known now, so the laws are those of single predicates
  refine ⟨accepts_notEqual, ?_, ?_, fun v => accepts_present_of_accepts_equality,
    fun bound v => accepts_present_of_accepts_compare⟩
  · rw [accepts_isNull, Bool.bne_false]
  · rw [accepts_isNull, Bool.bne_true]

/-- An array with a null, a text and an element without the field. The text makes the selector
present, since it is a candidate, and it makes the glob hold. -/
theorem accepts_notEqual_and_isNull_mixed_array :
    let options : Options := { aliases := [("city", "address.town")] }
    let doc : Json := .object [("address", .array
      [.object [("town", .null)], .object [("town", .string "Rome")], .object [], .null])]
    options.resolve ⟨none, "city"⟩ = .ok ⟨some "address", "town"⟩ ∧
      ∃ present isNull notEqual,
        ofQuery (.present ⟨none, "city"⟩) options = .ok present ∧
        ofQuery (.comparison ⟨none, "city"⟩ .isNull (.bool true)) options = .ok isNull ∧
        ofQuery (.equality ⟨none, "city"⟩ .notEqual (.text "R*")) options = .ok notEqual ∧
        present.accepts doc = true ∧ isNull.accepts doc = false ∧ notEqual.accepts doc = false := by
  intro options doc
  have hs : options.resolve ⟨none, "city"⟩ = .ok ⟨some "address", "town"⟩ := rfl
  obtain ⟨present, isNull, _, equality, _, hpresent, hisNull, -, hequality, -, hlaws⟩ :=
    accepts_notEqual_and_isNull hs
  obtain ⟨hnotEqual, -, hnull, hequal, -⟩ := hlaws doc
  have hglob : (equality .equal (.text "R*")).accepts doc = true := by
    rw [← Except.ok.inj (hequality .equal (.text "R*"))]
    decide
  have haccepts := hequal (.text "R*") hglob
  refine ⟨hs, present, isNull, _, hpresent, hisNull, hequality .notEqual (.text "R*"), haccepts,
    ?_, ?_⟩
  · rw [hnull, haccepts]
    rfl
  · rw [hnotEqual, hglob]
    rfl

end FilterQuery.Predicate
