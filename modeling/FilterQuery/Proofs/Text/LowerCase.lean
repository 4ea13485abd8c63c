import FilterQuery.Text.LowerCase

/-!
# What lower-casing leaves alone

No run of the table of lower-case letters covers or makes a character before the letter `A`. So a
text and its lower case agree on which of the signs and figures there they hold, among them the star
of patterns (`mem_lowerCase_iff`).
-/

namespace FilterQuery.Text

/-- The code points of a run and their images are characters, and none stands before the letters. -/
def CaseRun.IsProper (r : CaseRun) : Prop :=
  'A'.toNat ≤ r.first ∧ 'A'.toNat ≤ r.target ∧
    (r.target + (r.last - r.first) < 0xD800 ∨
      0xE000 ≤ r.target ∧ r.target + (r.last - r.first) < 0x110000)

/-- All runs of the table of lower-case letters are proper, which the kernel checks run by run. -/
theorem isProper_of_mem_lowerRuns {r : CaseRun} (h : r ∈ lowerRuns) : r.IsProper := by
  revert r
  unfold CaseRun.IsProper
  decide +kernel

/-- Where proper runs give an image, neither the code point nor its image stands before the letters,
and the image is a character. -/
theorem CaseRun.of_lookup? {rs : List CaseRun} (hrs : ∀ r ∈ rs, r.IsProper) {n m : Nat}
    (h : lookup? rs n = some m) : 'A'.toNat ≤ n ∧ 'A'.toNat ≤ m ∧ m.isValidChar := by
  obtain ⟨r, hr, hcovers, rfl⟩ := exists_run_of_lookup? h
  obtain ⟨hfirst, htarget, hvalid⟩ := hrs r hr
  simp only [covers, Bool.and_eq_true, decide_eq_true_eq] at hcovers
  rw [apply, Nat.isValidChar]
  omega

theorem toNat_ofNat_of_isValidChar {n : Nat} (h : n.isValidChar) : (Char.ofNat n).toNat = n := by
  rw [Char.ofNat, dif_pos h]
  rfl

/-- Neither a character with an image nor its image stands before the letters. So neither of the two
can be a sign or a figure there. -/
theorem ofNat_eq_iff_of_lookup? {rs : List CaseRun} (hrs : ∀ r ∈ rs, r.IsProper) {c d : Char}
    {m : Nat} (h : CaseRun.lookup? rs c.toNat = some m) (hd : d.toNat < 'A'.toNat) :
    Char.ofNat m = d ↔ c = d := by
  obtain ⟨hc, hm, hvalid⟩ := CaseRun.of_lookup? hrs h
  constructor
  · intro heq
    rw [← heq, toNat_ofNat_of_isValidChar hvalid] at hd
    omega
  · intro heq
    rw [← heq] at hd
    omega

/-- A character before the letters is the lower case of itself only. -/
theorem lowerChar_eq_iff {c d : Char} (hd : d.toNat < 'A'.toNat) : lowerChar c = d ↔ c = d := by
  unfold lowerChar
  cases hlookup : CaseRun.lookup? lowerRuns c.toNat with
  | none => rfl
  | some m => exact ofNat_eq_iff_of_lookup? (fun _ => isProper_of_mem_lowerRuns) hlookup hd

/-- What one character becomes holds a character before the letters only if it is this character,
also where it becomes two. -/
theorem mem_lowerAt_iff {d : Char} (hd : d.toNat < 'A'.toNat) (before : List Char) (c : Char)
    (after : List Char) : d ∈ lowerAt before c after ↔ d ∈ [c] := by
  have hletters {es : List Char} (hes : ∀ e ∈ es, 'A'.toNat ≤ e.toNat) : d ∉ es := by
    intro hmem
    have := hes d hmem
    omega
  unfold lowerAt
  -- the two characters that are not in the table, and then the table
  by_cases hsigma : c = 'Σ'
  · rw [if_pos hsigma, hsigma]
    split <;> exact iff_of_false (hletters (by simp)) (hletters (by simp))
  · rw [if_neg hsigma]
    by_cases hdotted : c = 'İ'
    · rw [if_pos hdotted, hdotted]
      exact iff_of_false (hletters (by simp)) (hletters (by simp))
    · rw [if_neg hdotted, List.mem_singleton, List.mem_singleton, eq_comm, lowerChar_eq_iff hd,
        eq_comm]

theorem mem_lowerAfter_iff {d : Char} (hd : d.toNat < 'A'.toNat) (before cs : List Char) :
    d ∈ lowerAfter before cs ↔ d ∈ cs := by
  induction cs generalizing before with
  | nil => rfl
  | cons c cs ih =>
    rw [lowerAfter, List.mem_append, mem_lowerAt_iff hd, ih, List.mem_singleton, List.mem_cons]

/-- Lower-casing a text neither adds nor removes a character that stands before the letters. In
particular a text is a pattern in lower case exactly if it is one as it is written. -/
theorem mem_lowerCase_iff {d : Char} (hd : d.toNat < 'A'.toNat) (s : String) :
    d ∈ (lowerCase s).toList ↔ d ∈ s.toList := by
  rw [lowerCase, String.toList_ofList]
  exact mem_lowerAfter_iff hd [] s.toList

end FilterQuery.Text
