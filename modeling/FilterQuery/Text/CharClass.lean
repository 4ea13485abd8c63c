/-!
# Classes of characters given by ranges

A class is a list of ranges of code points in ascending order. Membership stops at the first range
that starts above the character, so common characters are settled by the first few ranges.
-/

namespace FilterQuery.Text

/-- A set of characters: inclusive ranges of code points, in ascending order. -/
structure CharClass where
  /-- The ranges, each a first and a last code point. -/
  ranges : List (Nat × Nat)

namespace CharClass

/-- Whether code point `n` lies in one of the ascending ranges. -/
def covers : List (Nat × Nat) → Nat → Bool
  | [], _ => false
  | (first, last) :: rest, n => if n < first then false else n ≤ last || covers rest n

/-- Whether a character belongs to the class. -/
def contains (cls : CharClass) (c : Char) : Bool := covers cls.ranges c.toNat

/-- A covered code point lies in one of the ranges. -/
theorem exists_range_of_covers {rs : List (Nat × Nat)} {n : Nat} (h : covers rs n = true) :
    ∃ r ∈ rs, r.1 ≤ n ∧ n ≤ r.2 := by
  induction rs with
  | nil => simp [covers] at h
  | cons r rest ih =>
    obtain ⟨first, last⟩ := r
    rw [covers] at h
    split at h
    · simp at h
    · rcases Bool.or_eq_true_iff.1 h with hle | hrest
      · exact ⟨(first, last), List.mem_cons_self, by omega, of_decide_eq_true hle⟩
      · obtain ⟨r, hr, hb⟩ := ih hrest
        exact ⟨r, List.mem_cons_of_mem _ hr, hb⟩

end CharClass

end FilterQuery.Text
