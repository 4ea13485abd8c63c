import FilterQuery.Proofs.Predicate.Compilation
import FilterQuery.Proofs.Predicate.Globs

/-!
# What equality constraints accept

An equality constraint accepts a document for one of its candidates, and what it asks of a candidate
depends on the value. A text with a star is a glob (`accepts_star_iff`), every other single value
stands for itself (`accepts_plain_iff`), and a list stands for its items, stars included
(`accepts_list_iff`). The negated constraint accepts the other documents (`accepts_notEqual`).
-/

namespace FilterQuery

/-- The value is neither a list nor a text with a star. -/
def Literal.IsPlain : Literal → Prop
  | .text t => Glob.star ∉ t.toList
  | .list _ => False
  | _ => True

namespace Predicate

/-- An equality constraint has a predicate as soon as its selector is resolved, whatever the value
is. -/
theorem ofQuery_equality {options : Options} {s s' : Selector} (hs : options.resolve s = .ok s')
    (op : Equality) (v : Literal) :
    ofQuery (.equality s op v) options = .ok (ofEquality options.ignoreCase s' op v) :=
  ofQuery_eq_ok_iff.2 (.equality hs)

section

variable {ignoreCase : Bool} {s : Selector} {doc : Json}

/-- The predicate and the one with the negation set accept complementary sets of documents, those
without any candidate included. -/
theorem accepts_equals_negated (values : List Literal) :
    (equals s values true ignoreCase).accepts doc =
      !(equals s values false ignoreCase).accepts doc := by
  simp [accepts]

/-- "Not equal" accepts what "equal" rejects, for values of every kind: the negation is made after
all candidates have been asked, not for each of them. -/
theorem accepts_notEqual (v : Literal) :
    (ofEquality ignoreCase s .notEqual v).accepts doc =
      !(ofEquality ignoreCase s .equal v).accepts doc := by
  cases v with
  -- only a text has two forms, and the negation goes into both of them
  | text t =>
    by_cases hstar : Glob.star ∈ t.toList
    · rw [ofEquality_of_mem_star hstar, ofEquality_of_mem_star hstar]
      show (like s _ true).accepts doc = !(like s _ false).accepts doc
      simp [accepts]
    · rw [ofEquality_of_notMem_star hstar, ofEquality_of_notMem_star hstar]
      exact accepts_equals_negated [.text t]
  | bool b => exact accepts_equals_negated [.bool b]
  | number n => exact accepts_equals_negated [.number n]
  | list values => exact accepts_equals_negated values

/-- The predicate accepts for one candidate and one value. Both are existential, so neither their
order nor a repetition plays a role. -/
theorem accepts_equals_iff {values : List Literal} :
    (equals s values false ignoreCase).accepts doc = true ↔
      ∃ c ∈ candidates s doc, ∃ v ∈ values, sameAs ignoreCase c v = true := by
  simp only [accepts, Bool.bne_false, List.any_eq_true]

/-- A list stands for its items. They are compared as they are, so a star in one of them is a
character like any other. -/
theorem accepts_list_iff {values : List Literal} :
    (ofEquality ignoreCase s .equal (.list values)).accepts doc = true ↔
      ∃ c ∈ candidates s doc, ∃ v ∈ values, sameAs ignoreCase c v = true :=
  accepts_equals_iff

/-- A single value that is no glob is compared with each candidate. -/
theorem accepts_plain_iff {v : Literal} (hv : v.IsPlain) :
    (ofEquality ignoreCase s .equal v).accepts doc = true ↔
      ∃ c ∈ candidates s doc, sameAs ignoreCase c v = true := by
  -- the value becomes a list of one, so that the lemma on lists applies
  have hsingle : ofEquality ignoreCase s .equal v = .equals s [v] false ignoreCase := by
    cases v with
    | text t => exact ofEquality_of_notMem_star hv ignoreCase s .equal
    | list items => exact hv.elim
    | bool | number => rfl
  rw [hsingle, accepts_equals_iff]
  simp only [List.mem_singleton, exists_eq_left]

/-- Only texts are like a glob; a number is not, even if it would be written that way. A selector
that points at a number therefore satisfies no glob and every negated one. -/
theorem isLike_iff {g : Glob} {c : Json} :
    isLike g c = true ↔ ∃ text, c = .string text ∧ g.accepts text = true := by
  cases c with
  | string text => simp [isLike]
  | _ => simp [isLike]

/-- A text with a star accepts a document if one of the candidates is a text that can be laid out
along it. -/
theorem accepts_star_iff {t : String} (hstar : Glob.star ∈ t.toList) :
    (ofEquality ignoreCase s .equal (.text t)).accepts doc = true ↔
      ∃ text, .string text ∈ candidates s doc ∧
        Glob.Fits (Text.sameChar ignoreCase) Glob.isRunChar t.toList text.toList := by
  -- first the candidates, whatever they are, then the matcher on those that are texts
  have hcandidates : (ofEquality ignoreCase s .equal (.text t)).accepts doc = true ↔
      ∃ c ∈ candidates s doc, isLike ⟨t.toList, ignoreCase⟩ c = true := by
    rw [ofEquality_of_mem_star hstar]
    show ((candidates s doc).any (isLike _) != false) = true ↔ _
    rw [Bool.bne_false, List.any_eq_true]
  rw [hcandidates]
  constructor
  · rintro ⟨c, hc, hlike⟩
    obtain ⟨text, rfl, haccepts⟩ := isLike_iff.1 hlike
    exact ⟨text, hc, (Glob.accepts_iff_fits _ text).1 haccepts⟩
  · rintro ⟨text, hc, hfits⟩
    exact ⟨.string text, hc, isLike_iff.2 ⟨text, rfl, (Glob.accepts_iff_fits _ text).2 hfits⟩⟩

end

end Predicate

end FilterQuery
