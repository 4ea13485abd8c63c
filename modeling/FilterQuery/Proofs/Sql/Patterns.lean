import FilterQuery.Proofs.Predicate.Layouts
import FilterQuery.Proofs.Sql.Like
import FilterQuery.Proofs.Sql.Reading

/-!
# Patterns as encodings of texts with stars

`likePattern` encodes a text with stars as a LIKE pattern. The encoding is faithful in three ways: a
text satisfies the pattern exactly if it is laid out along the stars, the pattern is well formed, in
that each backslash has a character to take (`dangles_likePattern`), and two texts with stars never
share a pattern, because a pattern can be read back (`readPattern_likePattern`).
-/

namespace FilterQuery.Sql

/-- Whether the pattern, read from left to right, ends in a backslash that takes no character. -/
def dangles : List Char → Bool
  | [] => false
  | ['\\'] => true
  | '\\' :: _ :: rest => dangles rest
  | _ :: rest => dangles rest

/-- What one character is encoded as takes its own backslash with it, so the rest decides. -/
theorem dangles_patternChar_append (c : Char) (rest : List Char) :
    dangles (patternChar c ++ rest) = dangles rest := by
  unfold patternChar
  by_cases hstar : c = '*'
  · rw [if_pos hstar]
    rfl
  · rw [if_neg hstar]
    by_cases hspecial : c = '%' ∨ c = '_' ∨ c = '\\'
    · rw [if_pos hspecial]
      rfl
    · rw [if_neg hspecial]
      have hslash : c ≠ '\\' := fun h => hspecial (.inr (.inr h))
      rw [List.singleton_append, dangles]
      · exact fun h => absurd h hslash
      · exact fun _ _ h => absurd h hslash

theorem dangles_likePattern (p : String) : dangles (likePattern p).toList = false := by
  rw [likePattern, String.toList_ofList]
  induction p.toList with
  | nil => rfl
  | cons c cs ih => rw [List.flatMap_cons, dangles_patternChar_append, ih]

/-- Different texts with stars have different patterns, because a pattern can be read back. -/
theorem likePattern_injective : Function.Injective likePattern := by
  intro p q h
  rw [← readPattern_likePattern p, h, readPattern_likePattern q]

/-- **Patterns are faithful.** A text satisfies the pattern for a text with stars exactly if it is
the pieces between the stars, in order, with any run of characters for each star between them; the
first piece is then a prefix and the last one a suffix of it. No such pattern ends in a backslash
that takes no character, and different texts with stars have different patterns. -/
theorem like_likePattern_iff_exists_layout :
    (∀ p s : String, Like (likePattern p).toList s.toList ↔
      ∃ l : Glob.Layout, l.pieces = p.toList.splitOn '*' ∧ l.text = s.toList ∧
        l.first <+: s.toList ∧ l.last <:+ s.toList) ∧
    (∀ p : String, dangles (likePattern p).toList = false) ∧
    Function.Injective likePattern := by
  refine ⟨fun p s => ?_, dangles_likePattern, likePattern_injective⟩
  -- pieces with the same characters are equal, and any run will do
  have hfollows (l : Glob.Layout) :
      l.Follows (Text.sameChar false) (fun _ => true) p.toList ↔
        l.pieces = p.toList.splitOn '*' := by
    have hsame : (fun x c => Text.sameChar false x c = true) = (· = ·) := by
      funext x c
      exact propext beq_iff_eq
    have hpieces : List.Forall₂ (List.Forall₂ fun x c => Text.sameChar false x c = true)
        (p.toList.splitOn '*') l.pieces ↔ l.pieces = p.toList.splitOn '*' := by
      rw [hsame, List.forall₂_eq_eq_eq, List.forall₂_eq_eq_eq, eq_comm]
    exact ⟨fun h => hpieces.1 h.pieces, fun h => ⟨hpieces.2 h, fun _ _ _ _ => rfl⟩⟩
  rw [like_likePattern_iff, Glob.fits_iff_exists_layout]
  constructor
  · rintro ⟨l, htext, hl⟩
    exact ⟨l, (hfollows l).1 hl, htext, htext ▸ l.first_prefix_text, htext ▸ l.last_suffix_text⟩
  · rintro ⟨l, hpieces, htext, -, -⟩
    exact ⟨l, htext, (hfollows l).2 hpieces⟩

-- a star, a percent sign and a backslash at the end, which is taken by the one before it
example : likePattern "*%\\" = "%\\%\\\\" ∧ dangles "%\\%\\\\".toList = false := by decide

end FilterQuery.Sql
