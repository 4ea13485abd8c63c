import FilterQuery.Sql.Pattern
import FilterQuery.Proofs.Predicate.Globs

/-!
# What a LIKE pattern matches

`Like pattern text` is the rule of the LIKE operator, read off the pattern from left to right. A
pattern made from a text with stars is escaped so that each of its characters other than a star
stands for itself. So it matches the texts that can be laid out along the stars, where a star may
run over any character (`like_likePattern_iff`).
-/

namespace FilterQuery.Sql

/-- The text satisfies the LIKE pattern. A pattern that ends in a single backslash matches
nothing. -/
inductive Like : List Char → List Char → Prop where
  | done : Like [] []
  | percent {pattern run text : List Char} (h : Like pattern text) :
      Like ('%' :: pattern) (run ++ text)
  | underscore {c : Char} {pattern text : List Char} (h : Like pattern text) :
      Like ('_' :: pattern) (c :: text)
  | escaped {c : Char} {pattern text : List Char} (h : Like pattern text) :
      Like ('\\' :: c :: pattern) (c :: text)
  | plain {c : Char} {pattern text : List Char} (hpercent : c ≠ '%') (hunderscore : c ≠ '_')
      (hslash : c ≠ '\\') (h : Like pattern text) : Like (c :: pattern) (c :: text)

theorem like_nil_iff {text : List Char} : Like [] text ↔ text = [] := by
  constructor
  · intro h
    cases h
    rfl
  · rintro rfl
    exact .done

/-- A percent sign matches a run of any length and of any characters. The definition has the run as
an argument, which is found by inversion here. -/
theorem like_percent_iff {pattern text : List Char} :
    Like ('%' :: pattern) text ↔ ∃ run rest, text = run ++ rest ∧ Like pattern rest := by
  constructor
  · intro h
    cases h with
    | percent h => exact ⟨_, _, rfl, h⟩
    | plain hpercent _ _ _ => exact absurd rfl hpercent
  · rintro ⟨run, rest, rfl, h⟩
    exact .percent h

/-- A character behind a backslash stands for itself, whatever it is. -/
theorem like_escaped_iff {c : Char} {pattern text : List Char} :
    Like ('\\' :: c :: pattern) text ↔ ∃ rest, text = c :: rest ∧ Like pattern rest := by
  constructor
  · intro h
    cases h with
    | escaped h => exact ⟨_, rfl, h⟩
    | plain _ _ hslash _ => exact absurd rfl hslash
  · rintro ⟨rest, rfl, h⟩
    exact .escaped h

theorem like_plain_iff {c : Char} (hpercent : c ≠ '%') (hunderscore : c ≠ '_') (hslash : c ≠ '\\')
    {pattern text : List Char} :
    Like (c :: pattern) text ↔ ∃ rest, text = c :: rest ∧ Like pattern rest := by
  constructor
  · intro h
    cases h with
    | percent => exact absurd rfl hpercent
    | underscore => exact absurd rfl hunderscore
    | escaped => exact absurd rfl hslash
    | plain _ _ _ h => exact ⟨_, rfl, h⟩
  · rintro ⟨rest, rfl, h⟩
    exact .plain hpercent hunderscore hslash h

/-- In a pattern made from a text with stars, a character other than a star stands for itself. For
the three special characters this is the rule for a backslash, for the others the plain one. -/
theorem like_patternChar_append_iff {c : Char} (hc : c ≠ '*') {pattern text : List Char} :
    Like (patternChar c ++ pattern) text ↔ ∃ rest, text = c :: rest ∧ Like pattern rest := by
  rw [patternChar, if_neg hc]
  -- the characters with a meaning of their own are those that get a backslash
  split
  · exact like_escaped_iff
  · next hspecial =>
    simp only [not_or] at hspecial
    exact like_plain_iff hspecial.1 hspecial.2.1 hspecial.2.2

/-- Read character by character, the pattern has the rules of a glob in which a star may run over
every character: each star became a percent sign, and everything else stands for itself. -/
theorem like_flatMap_patternChar_iff (pattern text : List Char) :
    Like (pattern.flatMap patternChar) text ↔
      Glob.Fits (Text.sameChar false) (fun _ => true) pattern text := by
  induction pattern generalizing text with
  | nil => exact like_nil_iff.trans Glob.fits_nil_iff.symm
  | cons x pattern ih =>
    rw [List.flatMap_cons]
    -- one rule for a star and one for all other characters, on both sides
    by_cases hx : x = '*'
    · subst hx
      rw [show patternChar '*' = ['%'] from rfl, List.singleton_append, like_percent_iff,
        show '*' = Glob.star from rfl, Glob.fits_star_iff]
      simp [ih]
    · rw [like_patternChar_append_iff hx, Glob.fits_cons_iff hx]
      constructor
      · rintro ⟨rest, rfl, h⟩
        exact ⟨x, rest, rfl, beq_self_eq_true x, (ih rest).1 h⟩
      · rintro ⟨c, rest, rfl, hc, h⟩
        obtain rfl : x = c := eq_of_beq hc
        exact ⟨rest, rfl, (ih rest).2 h⟩

/-- The pattern for a text with stars matches the texts that can be laid out along the stars. -/
theorem like_likePattern_iff (p text : String) :
    Like (likePattern p).toList text.toList ↔
      Glob.Fits (Text.sameChar false) (fun _ => true) p.toList text.toList := by
  rw [likePattern, String.toList_ofList]
  exact like_flatMap_patternChar_iff p.toList text.toList

end FilterQuery.Sql
