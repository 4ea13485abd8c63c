import FilterQuery.Proofs.Predicate.IgnoringCase
import FilterQuery.Proofs.Sql.Fragments

/-!
# Statements up to case

With the option to ignore case, the backend lower-cases the texts of every value before it looks at
them, so a statement depends on the lower case of its query only (`ofQuery_mapText_lowerCase`). The
star of a pattern, the choice of `LOWER` and the escapes of the pattern are all read off the value
in lower case, and a lower case is its own lower case: that is all the argument needs, for a value
(`adapted_mapText_lowerCase`) and from there for a walk.
-/

namespace FilterQuery

mutual

/-- To change the texts of a literal twice is to change them once by both changes. -/
theorem Literal.mapText_mapText (f g : String → String) :
    (v : Literal) → (v.mapText g).mapText f = v.mapText (f ∘ g)
  | .bool _ => rfl
  | .number _ => rfl
  | .text _ => rfl
  | .list items => congrArg Literal.list (Literal.mapTextItems_mapTextItems f g items)

theorem Literal.mapTextItems_mapTextItems (f g : String → String) :
    (items : List Literal) →
      Literal.mapTextItems f (Literal.mapTextItems g items) = Literal.mapTextItems (f ∘ g) items
  | [] => rfl
  | v :: items => congrArg₂ List.cons (Literal.mapText_mapText f g v)
      (Literal.mapTextItems_mapTextItems f g items)

end

namespace Sql

/-- Up to case, a value and its lower case are compared in the same form. -/
theorem adapted_mapText_lowerCase (v : Literal) :
    adapted true (v.mapText Text.lowerCase) = adapted true v := by
  have hidem : Text.lowerCase ∘ Text.lowerCase = Text.lowerCase := funext Text.lowerCase_lowerCase
  show (v.mapText Text.lowerCase).mapText Text.lowerCase = v.mapText Text.lowerCase
  rw [Literal.mapText_mapText, hidem]

/-- So they are adapted alike, and the query around them has no part in it. -/
theorem adaptValue_mapText_lowerCase (root root' : Query) {options : Options}
    (hi : options.ignoreCase = true) (s : Selector) (v : Literal) :
    backend.adaptValue ⟨root, options⟩ s (v.mapText Text.lowerCase) =
      backend.adaptValue ⟨root', options⟩ s v := by
  rw [Backend.adaptValue, Backend.adaptValue, adapt_eq, adapt_eq]
  simp only [hi, Option.map_some, adapted_mapText_lowerCase]
  cases ofCheck (s.permit options.allowed) <;> rfl

/-- So a walk through a query and one through its lower case build the same lexemes and bind the
same values, or fail with the same error. -/
theorem walk_mapText_lowerCase (root root' : Query) {options : Options}
    (hi : options.ignoreCase = true) (q : Query) (ps : List Literal) :
    backend.walk ⟨root, options⟩ (q.mapText Text.lowerCase) ps =
      backend.walk ⟨root', options⟩ q ps := by
  induction q generalizing ps with
  | or l r ihl ihr | and l r ihl ihr =>
    simp only [Query.mapText, Backend.walk, ihl, ihr]
    rfl
  | present s =>
    simp only [Query.mapText, Backend.walk, adapt_eq]
    rfl
  | equality s op v | comparison s op v =>
    simp only [Query.mapText, Backend.walk, adaptValue_mapText_lowerCase root root' hi]
    rfl

/-- **Up to case, a statement does not depend on the case of the values.** A query and the query
with its values in lower case have the same statement, text and parameters, or fail with the same
error; so do any two queries that are the same in lower case. -/
theorem ofQuery_mapText_lowerCase {options : Options} (hi : options.ignoreCase = true) (q : Query) :
    ofQuery (q.mapText Text.lowerCase) options = ofQuery q options ∧
      ∀ q' : Query, q'.mapText Text.lowerCase = q.mapText Text.lowerCase →
        ofQuery q' options = ofQuery q options := by
  have hlower (q : Query) : ofQuery (q.mapText Text.lowerCase) options = ofQuery q options := by
    unfold ofQuery Backend.run
    simp only [walk_mapText_lowerCase (q.mapText Text.lowerCase) q hi]
    rfl
  refine ⟨hlower q, fun q' hq' => ?_⟩
  rw [← hlower q', hq', hlower q]

/-- The last sigma of a word has a lower case of its own, and the dotted capital I one of two
characters. -/
theorem ofQuery_mapText_lowerCase_pattern_and_list :
    ofQuery (.and (.equality ⟨none, "name"⟩ .equal (.text "οδος_*"))
        (.equality ⟨some "home", "city"⟩ .notEqual (.list [.number (.integer 7), .text "i\u0307"])))
      { table := "people", ignoreCase := true } =
    ofQuery (.and (.equality ⟨none, "name"⟩ .equal (.text "ΟΔΟΣ_*"))
        (.equality ⟨some "home", "city"⟩ .notEqual (.list [.number (.integer 7), .text "İ"])))
      { table := "people", ignoreCase := true } := by
  have hignore : ({ table := "people", ignoreCase := true } : Options).ignoreCase = true := rfl
  exact (ofQuery_mapText_lowerCase hignore _).2 _ (by decide +kernel)

end Sql

end FilterQuery
