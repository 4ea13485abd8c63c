import Mathlib.Logic.Basic
import FilterQuery.Proofs.Predicate.Equality
import FilterQuery.Proofs.Predicate.IgnoringCase
import FilterQuery.Proofs.Text.Drift

/-!
# Lists of values

A constraint with a list should ask for one of the constraints with its items, and a negated one for
all of them. This holds for items that stand for themselves (`accepts_list_iff_exists`). A text with
a star stands for itself in a list and for a glob outside of it, and the glob matches texts of any
length (`exists_fits_of_mem_star`), of which only those with a bounded length equal an item of the
list. So one such text in a list is enough to break the law (`exists_accepts_star_not_list`), and
nothing else breaks it (`accepts_list_iff_notMem_star`).
-/

namespace FilterQuery

/-- The characters of a text in lower case; other values have none. -/
def Literal.lowerChars : Literal → List Char
  | .text t => (Text.lowerCase t).toList
  | _ => []

namespace Glob

/-- A star runs as far as one likes. So a text with a star accepts texts of every length from some
length on. -/
theorem exists_fits_of_mem_star (ignoreCase : Bool) {pattern : List Char} (h : star ∈ pattern)
    (n : Nat) :
    ∃ text, n ≤ text.length ∧ Fits (Text.sameChar ignoreCase) isRunChar pattern text := by
  obtain ⟨before, after, rfl⟩ := List.append_of_mem h
  -- the pattern itself, with the star replaced by a run of the wanted length
  refine ⟨before ++ (List.replicate n 'x' ++ after), ?_, ?_⟩
  · rw [List.length_append, List.length_append, List.length_replicate]
    omega
  · refine (fits_self ignoreCase before).append (.run ?_ (fits_self ignoreCase after))
    intro c hc
    rw [List.eq_of_mem_replicate hc]
    rfl

end Glob

namespace Predicate

section

variable {ignoreCase : Bool} {s : Selector} {values : List Literal}

/-- For values that stand for themselves, "equal to the list" means "equal to one of the values":
both ask for a candidate that is the same as a value. -/
theorem accepts_list_iff_exists (hvalues : ∀ v ∈ values, v.IsPlain) (doc : Json) :
    (ofEquality ignoreCase s .equal (.list values)).accepts doc = true ↔
      ∃ v ∈ values, (ofEquality ignoreCase s .equal v).accepts doc = true := by
  rw [accepts_list_iff]
  constructor
  · rintro ⟨c, hc, v, hv, hsame⟩
    exact ⟨v, hv, (accepts_plain_iff (hvalues v hv)).2 ⟨c, hc, hsame⟩⟩
  · rintro ⟨v, hv, haccepts⟩
    obtain ⟨c, hc, hsame⟩ := (accepts_plain_iff (hvalues v hv)).1 haccepts
    exact ⟨c, hc, v, hv, hsame⟩

/-- The law for a negated constraint is the law for the constraint itself. -/
theorem accepts_notEqual_list_iff (doc : Json) :
    ((ofEquality ignoreCase s .notEqual (.list values)).accepts doc = true ↔
        ∀ v ∈ values, (ofEquality ignoreCase s .notEqual v).accepts doc = true) ↔
      ((ofEquality ignoreCase s .equal (.list values)).accepts doc = true ↔
        ∃ v ∈ values, (ofEquality ignoreCase s .equal v).accepts doc = true) := by
  have hnone : (∀ v ∈ values, (ofEquality ignoreCase s .notEqual v).accepts doc = true) ↔
      ¬ ∃ v ∈ values, (ofEquality ignoreCase s .equal v).accepts doc = true := by
    simp only [accepts_notEqual, Bool.not_eq_true', not_exists, not_and, Bool.not_eq_true]
  rw [hnone, accepts_notEqual, Bool.not_eq_true', ← Bool.not_eq_true, not_iff_not]

/-- A text that equals a value, up to case or not, is no longer than the lower case of the value.
Lower case can lengthen a text but never shortens it. -/
theorem length_le_length_lowerChars {text : String} {v : Literal}
    (h : sameAs ignoreCase (.string text) v = true) :
    text.toList.length ≤ v.lowerChars.length := by
  cases v with
  | text t =>
    have hlower : Text.lowerCase text = Text.lowerCase t := by
      cases ignoreCase with
      | true => exact eq_of_beq h
      | false => exact congrArg Text.lowerCase (eq_of_beq h)
    show _ ≤ (Text.lowerCase t).toList.length
    rw [← hlower]
    exact Text.length_le_length_lowerCase text
  | bool | number | list => cases h

/-- Whatever is in a list, a text with a star accepts a document that the list does not. An item can
equal only texts that are no longer than its lower case, and a star runs beyond that. -/
theorem exists_accepts_star_not_list (values : List Literal) {t : String}
    (hstar : Glob.star ∈ t.toList) :
    ∃ doc, (ofEquality ignoreCase s .equal (.text t)).accepts doc = true ∧
      ¬ (ofEquality ignoreCase s .equal (.list values)).accepts doc = true := by
  -- a text that is longer than all items together, in lower case, is equal to none
  obtain ⟨chars, hlength, hfits⟩ := Glob.exists_fits_of_mem_star ignoreCase hstar
    ((values.flatMap Literal.lowerChars).length + 1)
  refine ⟨holding s (.string (String.ofList chars)), ?_, ?_⟩
  · rw [accepts_star_iff hstar]
    refine ⟨String.ofList chars, ?_, by rwa [String.toList_ofList]⟩
    rw [candidates_holding]
    exact List.mem_cons_self
  · rw [accepts_list_iff, candidates_holding]
    rintro ⟨c, hc, v, hv, hsame⟩
    rw [List.mem_singleton.1 hc] at hsame
    have hle := length_le_length_lowerChars hsame
    have hall : v.lowerChars.length ≤ (values.flatMap Literal.lowerChars).length :=
      (List.sublist_flatten_of_mem (List.mem_map_of_mem hv)).length_le
    rw [String.toList_ofList] at hle
    omega

end

/-- An equality constraint has a predicate, with a single value or a list of values, if its selector
is permitted and stands for a selector. For a list of single values, "equal to the list" means
"equal to one of the values" exactly if no value is a text with a star, and "not equal to the list"
means "not equal to each of the values" exactly then too. -/
theorem accepts_list_iff_notMem_star {options : Options} {s s' : Selector}
    (hs : options.resolve s = .ok s') {values : List Literal}
    (hsingle : ∀ items, .list items ∉ values) :
    ∃ build : Equality → Literal → Predicate,
      (∀ op v, ofQuery (.equality s op v) options = .ok (build op v)) ∧
      ((∀ doc, (build .equal (.list values)).accepts doc = true ↔
          ∃ v ∈ values, (build .equal v).accepts doc = true) ↔
        ∀ t, .text t ∈ values → '*' ∉ t.toList) ∧
      ((∀ doc, (build .notEqual (.list values)).accepts doc = true ↔
          ∀ v ∈ values, (build .notEqual v).accepts doc = true) ↔
        ∀ t, .text t ∈ values → '*' ∉ t.toList) := by
  refine ⟨ofEquality options.ignoreCase s', ofQuery_equality hs, ?_⟩
  simp only [accepts_notEqual_list_iff, and_self]
  constructor
  · intro h t ht hstar
    obtain ⟨doc, haccepts, hlist⟩ := exists_accepts_star_not_list values hstar
    exact hlist ((h doc).2 ⟨.text t, ht, haccepts⟩)
  · intro h
    refine accepts_list_iff_exists fun v hv => ?_
    cases v with
    | text t => exact h t hv
    | list items => exact absurd hv (hsingle items)
    | bool | number => trivial

/-- Items of three kinds, and an alias through an association with two elements. -/
theorem accepts_list_iff_notMem_star_three_kinds :
    let options : Options := { aliases := [("city", "address.town")] }
    let values : List Literal := [.text "Rome", .bool true, .number (.integer 3)]
    let doc : Json := .object [("address",
      .array [.object [("town", .string "Oslo")], .object [("town", .number (.integer 3))]])]
    options.resolve ⟨none, "city"⟩ = .ok ⟨some "address", "town"⟩ ∧
      (∀ items, .list items ∉ values) ∧
      ∃ list other,
        ofQuery (.equality ⟨none, "city"⟩ .equal (.list values)) options = .ok list ∧
        ofQuery (.equality ⟨none, "city"⟩ .notEqual (.list values)) options = .ok other ∧
        list.accepts doc = true ∧ other.accepts doc = false := by
  intro options values doc
  have hs : options.resolve ⟨none, "city"⟩ = .ok ⟨some "address", "town"⟩ := rfl
  have hsingle : ∀ items, .list items ∉ values := by simp [values]
  have hplain : ∀ t, .text t ∈ values → '*' ∉ t.toList := by
    intro t ht
    obtain rfl : t = "Rome" := by simpa [values] using ht
    decide
  obtain ⟨build, hbuild, hequal, hnotEqual⟩ := accepts_list_iff_notMem_star hs hsingle
  refine ⟨hs, hsingle, _, _, hbuild .equal _, hbuild .notEqual _, ?_, ?_⟩
  · -- the second town is the number of the list
    refine (hequal.2 hplain doc).2 ⟨.number (.integer 3), by simp [values], ?_⟩
    rw [← Except.ok.inj (hbuild .equal (.number (.integer 3)))]
    decide
  · refine eq_false_of_ne_true fun h => ?_
    have hthree := (hnotEqual.2 hplain doc).1 h (.number (.integer 3)) (by simp [values])
    rw [← Except.ok.inj (hbuild .notEqual (.number (.integer 3)))] at hthree
    revert hthree
    decide

/-- The star is a glob in the single value and a character in the list, so `J*` accepts John and the
list that holds it alone does not. -/
theorem accepts_star_and_not_accepts_list :
    ∃ p q, ofQuery (.equality ⟨none, "name"⟩ .equal (.text "J*")) {} = .ok p ∧
      ofQuery (.equality ⟨none, "name"⟩ .equal (.list [.text "J*"])) {} = .ok q ∧
      p.accepts (.object [("name", .string "John")]) = true ∧
      q.accepts (.object [("name", .string "John")]) = false :=
  ⟨_, _, rfl, rfl, by decide, by decide⟩

end Predicate

end FilterQuery
