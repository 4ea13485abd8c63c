import FilterQuery.Proofs.Text.LowerCase
import FilterQuery.Text.Fold

/-!
# Lower case and case folding

Lower-casing settles a text: a second time it changes nothing (`lowerCase_lowerCase`). It also keeps
the folding of every character (`map_foldChar_lowerAfter`) except those that drift: the dotted
capital I, which becomes two characters, and the capitals that have a lower case in edition 17 of
the standard and fold to themselves in edition 16. Only a drifting character itself has its folding
(`eq_of_foldChar_eq`), so no text in lower case has one that folds alike.

Most of this is about the rows of the two tables. What is said of whole rows by `CaseRun.avoids`,
the kernel checks row by row; what is left are a few short runs, checked code point by code point.
-/

namespace FilterQuery.Text

namespace CaseRun

/-- The run of the images. -/
def inverse (r : CaseRun) : CaseRun := ⟨r.target, r.target + (r.last - r.first), r.stride, r.first⟩

/-- A test that none of the ascending runs covers a code point of `r`: each run lies before it or
behind it, or both keep to every second code point and `r` to the other ones. -/
def avoids (r : CaseRun) : List CaseRun → Bool
  | [] => true
  | r' :: rest =>
    Nat.blt r.last r'.first ||
      (Nat.blt r'.last r.first ||
        (r'.stride == 2 && (r.stride == 2 || r.first == r.last) && (r.first + r'.first) % 2 == 1))
      && r.avoids rest

theorem covers_iff {r : CaseRun} {n : Nat} :
    r.covers n = true ↔ r.first ≤ n ∧ n ≤ r.last ∧ (n - r.first) % r.stride = 0 := by
  simp only [covers, Bool.and_eq_true, decide_eq_true_eq, beq_iff_eq, and_assoc]

/-- The run of the images covers every image. -/
theorem covers_inverse {r : CaseRun} {n : Nat} (h : r.covers n = true) :
    r.inverse.covers (r.apply n) = true := by
  rw [covers_iff] at h ⊢
  obtain ⟨hfirst, hlast, hstride⟩ := h
  have hdistance : r.target + (n - r.first) - r.target = n - r.first := by omega
  refine ⟨Nat.le_add_right _ _, ?_, ?_⟩
  · exact Nat.add_le_add_left (Nat.sub_le_sub_right hlast _) _
  · show (r.target + (n - r.first) - r.target) % r.stride = 0
    rw [hdistance, hstride]

/-- A table that avoids a run has no image for the code points of the run. The runs ascend, so the
look-up may stop at the first one that lies behind. -/
theorem lookup?_of_avoids {r : CaseRun} {rs : List CaseRun} (h : r.avoids rs = true) {n : Nat}
    (hn : r.covers n = true) : lookup? rs n = none := by
  obtain ⟨hfirst, hlast, hstride⟩ := covers_iff.1 hn
  induction rs with
  | nil => rfl
  | cons r' rest ih =>
    simp only [avoids, Bool.or_eq_true, Bool.and_eq_true, beq_iff_eq, Nat.blt_eq] at h
    rw [lookup?]
    -- the run ends before the next one of the table, or it is missed by it and the rest has to
    -- avoid it too
    rcases h with hbehind | ⟨hmiss, hrest⟩
    · rw [if_pos (by omega)]
    · have hcovers : ¬ r'.covers n = true := by
        rw [covers_iff]
        rintro ⟨hfirst', hlast', hstride'⟩
        rcases hmiss with hbefore | ⟨⟨htwo, hone⟩, hparity⟩
        · omega
        · rw [htwo] at hstride'
          rcases hone with htwo' | hsingle
          · rw [htwo'] at hstride
            omega
          · omega
      rw [if_neg hcovers, ih hrest]
      exact ite_self _

/-- What holds of the code points that the runs list holds of every code point with an image. This
makes a statement about all code points decidable for short tables. -/
theorem of_lookup?_of_forall {rs : List CaseRun} {P : Nat → Nat → Prop}
    (h : ∀ r ∈ rs, ∀ i < r.last + 1 - r.first, r.covers (r.first + i) = true →
      P (r.first + i) (r.target + i))
    {n m : Nat} (hlookup : lookup? rs n = some m) : P n m := by
  obtain ⟨r, hr, hcovers, rfl⟩ := exists_run_of_lookup? hlookup
  obtain ⟨hfirst, hlast, -⟩ := covers_iff.1 hcovers
  have hn : r.first + (n - r.first) = n := by omega
  have hP := h r hr (n - r.first) (by omega) (by rwa [hn])
  rwa [hn] at hP

end CaseRun

open CaseRun (lookup?)

/-! ## Settled characters -/

/-- Lower-casing leaves the character as it is, whatever stands beside it. -/
def IsSettled (c : Char) : Prop := ∀ before after, lowerAt before c after = [c]

/-- The table of lower-case letters avoids its own images and does not lead to the dotted capital I.
-/
theorem avoids_of_mem_lowerRuns {r : CaseRun} (h : r ∈ lowerRuns) :
    r.inverse.avoids lowerRuns = true ∧ r.inverse.covers 'İ'.toNat = false := by
  revert r
  decide +kernel

/-- The image of a code point has no image itself. Nor is it the dotted capital I, which has a lower
case outside of the table. -/
theorem lookup?_lowerRuns_image {n m : Nat} (h : lookup? lowerRuns n = some m) :
    lookup? lowerRuns m = none ∧ m ≠ 'İ'.toNat := by
  obtain ⟨r, hr, hcovers, rfl⟩ := CaseRun.exists_run_of_lookup? h
  obtain ⟨havoids, hdotted⟩ := avoids_of_mem_lowerRuns hr
  have himage := CaseRun.covers_inverse hcovers
  refine ⟨CaseRun.lookup?_of_avoids havoids himage, ?_⟩
  intro heq
  rw [heq, hdotted] at himage
  cases himage

/-- A character without an image is settled, except for the dotted capital I, which is not in the
table. -/
theorem isSettled_of_lookup? {c : Char} (h : lookup? lowerRuns c.toNat = none) (hc : c ≠ 'İ') :
    IsSettled c := by
  intro before after
  have hsigma : c ≠ 'Σ' := by
    rintro rfl
    exact absurd h (by decide)
  rw [lowerAt, if_neg hsigma, if_neg hc, lowerChar, h]

theorem toNat_ofNat_of_lookup? {n m : Nat} (h : lookup? lowerRuns n = some m) :
    (Char.ofNat m).toNat = m :=
  toNat_ofNat_of_isValidChar (CaseRun.of_lookup? (fun _ => isProper_of_mem_lowerRuns) h).2.2

/-- What the table makes of a character is settled. -/
theorem isSettled_lowerChar {c : Char} (hc : c ≠ 'İ') : IsSettled (lowerChar c) := by
  unfold lowerChar
  cases h : lookup? lowerRuns c.toNat with
  | none => exact isSettled_of_lookup? h hc
  | some m =>
    obtain ⟨hm, hdotted⟩ := lookup?_lowerRuns_image h
    have himage := toNat_ofNat_of_lookup? h
    apply isSettled_of_lookup?
    · show lookup? lowerRuns (Char.ofNat m).toNat = none
      rw [himage, hm]
    · show Char.ofNat m ≠ 'İ'
      intro heq
      rw [heq] at himage
      exact hdotted himage.symm

/-- Every character that lower-casing makes of one is settled, also the two sigmas and the two
characters of the dotted capital I. -/
theorem isSettled_of_mem_lowerAt {before after : List Char} {c d : Char}
    (h : d ∈ lowerAt before c after) : IsSettled d := by
  -- what the characters outside of the table become
  have hsettled {e : Char} (he : e ∈ ['ς', 'σ', 'i', '\u0307']) : IsSettled e := by
    have hnone : (['ς', 'σ', 'i', '\u0307'].all fun e =>
        lookup? lowerRuns e.toNat == none && e != 'İ') = true := by
      decide
    have he := List.all_eq_true.1 hnone e he
    rw [Bool.and_eq_true, beq_iff_eq, bne_iff_ne] at he
    exact isSettled_of_lookup? he.1 he.2
  unfold lowerAt at h
  by_cases hsigma : c = 'Σ'
  · rw [if_pos hsigma] at h
    split at h <;> exact hsettled (by simp_all)
  · rw [if_neg hsigma] at h
    by_cases hdotted : c = 'İ'
    · rw [if_pos hdotted] at h
      exact hsettled (by simp_all)
    · rw [if_neg hdotted, List.mem_singleton] at h
      rw [h]
      exact isSettled_lowerChar hdotted

theorem isSettled_of_mem_lowerAfter {before cs : List Char} {d : Char}
    (h : d ∈ lowerAfter before cs) : IsSettled d := by
  induction cs generalizing before with
  | nil => cases h
  | cons c cs ih =>
    rw [lowerAfter, List.mem_append] at h
    exact h.elim isSettled_of_mem_lowerAt ih

theorem lowerAfter_eq_self {before cs : List Char} (h : ∀ c ∈ cs, IsSettled c) :
    lowerAfter before cs = cs := by
  induction cs generalizing before with
  | nil => rfl
  | cons c cs ih =>
    rw [List.forall_mem_cons] at h
    rw [lowerAfter, h.1, ih h.2, List.singleton_append]

/-- Lower-casing a second time changes nothing. The lower case of a sigma depends on its place, but
what it becomes is no capital any more. -/
theorem lowerCase_lowerCase (s : String) : lowerCase (lowerCase s) = lowerCase s := by
  rw [lowerCase, lowerCase, String.toList_ofList]
  exact congrArg String.ofList (lowerAfter_eq_self fun c => isSettled_of_mem_lowerAfter)

/-! ## Foldings -/

/-- The characters whose lower case does not fold to what they fold to themselves. -/
def driftingChars : CharClass where
  ranges := [(0x130, 0x130), (0xA7CE, 0xA7CE), (0xA7D2, 0xA7D2), (0xA7D4, 0xA7D4),
    (0x16EA0, 0x16EB8)]

/-- Whether lower-casing changes what the character folds to. -/
def drifts (c : Char) : Bool := driftingChars.contains c

/-- The code point of the folding. -/
def foldCode (n : Nat) : Nat := (lookup? foldRuns n).getD ((lookup? lowerRuns n).getD n)

/-- The folding of a character has the code point that `foldCode` gives. -/
theorem foldChar_eq_ofNat_foldCode (c : Char) : foldChar c = Char.ofNat (foldCode c.toNat) := by
  unfold foldChar foldCode lowerChar
  cases lookup? foldRuns c.toNat with
  | some m => rfl
  | none =>
    cases lookup? lowerRuns c.toNat with
    | some m => rfl
    | none => exact (Char.ofNat_toNat c).symm

/-- Along a run of lower-case letters, lower-casing keeps foldings: the table of foldings avoids the
run and its images, or it is checked code point by code point. Only the Cherokee runs and those with
drifting characters meet the table of foldings. -/
theorem avoids_or_forall_of_mem_lowerRuns {r : CaseRun} (h : r ∈ lowerRuns) :
    (r.avoids foldRuns = true ∧ r.inverse.avoids foldRuns = true) ∨
      ∀ i < r.last + 1 - r.first, r.covers (r.first + i) = true →
        CharClass.covers driftingChars.ranges (r.first + i) = false →
          (lookup? foldRuns (r.target + i)).getD (r.target + i) =
            (lookup? foldRuns (r.first + i)).getD (r.target + i) := by
  revert r
  decide +kernel

/-- A code point that does not drift folds as its lower case does. -/
theorem foldCode_image {n m : Nat} (h : lookup? lowerRuns n = some m)
    (hn : CharClass.covers driftingChars.ranges n = false) : foldCode m = foldCode n := by
  unfold foldCode
  rw [h, (lookup?_lowerRuns_image h).1, Option.getD_some, Option.getD_none]
  obtain ⟨r, hr, hcovers, rfl⟩ := CaseRun.exists_run_of_lookup? h
  -- a run far from the table of foldings, or one that was checked point by point
  rcases avoids_or_forall_of_mem_lowerRuns hr with ⟨havoids, himage⟩ | hpoints
  · rw [CaseRun.lookup?_of_avoids havoids hcovers,
      CaseRun.lookup?_of_avoids himage (CaseRun.covers_inverse hcovers)]
  · obtain ⟨hfirst, hlast, -⟩ := CaseRun.covers_iff.1 hcovers
    have hpoint : r.first + (n - r.first) = n := by omega
    have hfold := hpoints (n - r.first) (by omega)
    rw [hpoint] at hfold
    exact hfold hcovers hn

theorem foldChar_lowerChar {c : Char} (h : drifts c = false) :
    foldChar (lowerChar c) = foldChar c := by
  rw [foldChar_eq_ofNat_foldCode (lowerChar c), foldChar_eq_ofNat_foldCode c]
  unfold lowerChar
  cases hlookup : lookup? lowerRuns c.toNat with
  | none => rfl
  | some m =>
    show Char.ofNat (foldCode (Char.ofNat m).toNat) = _
    rw [toNat_ofNat_of_lookup? hlookup, foldCode_image hlookup h]

/-- What a character becomes in a text has the folding of the character, if it does not drift. Both
sigmas fold alike. -/
theorem map_foldChar_lowerAt {c : Char} (h : drifts c = false) (before after : List Char) :
    (lowerAt before c after).map foldChar = [foldChar c] := by
  have hdotted : c ≠ 'İ' := by
    rintro rfl
    cases h
  unfold lowerAt
  by_cases hsigma : c = 'Σ'
  · have hfold : foldChar 'ς' = foldChar 'Σ' ∧ foldChar 'σ' = foldChar 'Σ' := by decide
    rw [if_pos hsigma, hsigma]
    split
    · exact congrArg ([·]) hfold.1
    · exact congrArg ([·]) hfold.2
  · rw [if_neg hsigma, if_neg hdotted]
    exact congrArg ([·]) (foldChar_lowerChar h)

/-- Lower-casing keeps the foldings of a text, as long as no character in it drifts. -/
theorem map_foldChar_lowerAfter {cs : List Char} (h : ∀ c ∈ cs, drifts c = false)
    (before : List Char) : (lowerAfter before cs).map foldChar = cs.map foldChar := by
  induction cs generalizing before with
  | nil => rfl
  | cons c cs ih =>
    rw [List.forall_mem_cons] at h
    rw [lowerAfter, List.map_append, map_foldChar_lowerAt h.1, ih h.2, List.map_cons,
      List.singleton_append]

/-! ## Drifting characters -/

/-- A drifting character folds to itself, and it has a lower case of its own. -/
theorem of_covers_driftingChars {n : Nat} (h : CharClass.covers driftingChars.ranges n = true) :
    foldCode n = n ∧ (n = 'İ'.toNat ∨ lookup? lowerRuns n ≠ none) := by
  have hpoints : ∀ r ∈ driftingChars.ranges, ∀ i < r.2 + 1 - r.1,
      foldCode (r.1 + i) = r.1 + i ∧
        (r.1 + i = 'İ'.toNat ∨ lookup? lowerRuns (r.1 + i) ≠ none) := by
    decide +kernel
  obtain ⟨r, hr, hfirst, hlast⟩ := CharClass.exists_range_of_covers h
  have hpoint := hpoints r hr (n - r.1) (by omega)
  rwa [show r.1 + (n - r.1) = n by omega] at hpoint

/-- The table of foldings leads from no other code point to a drifting character. The table is
short, so it is checked code point by code point. -/
theorem eq_of_lookup?_foldRuns {n m : Nat} (h : lookup? foldRuns n = some m)
    (hm : CharClass.covers driftingChars.ranges m = true) : m = n := by
  revert hm
  apply CaseRun.of_lookup?_of_forall _ h
  decide

/-- Only a drifting code point itself folds to it. -/
theorem eq_of_foldCode_eq {n m : Nat} (hm : CharClass.covers driftingChars.ranges m = true)
    (h : foldCode n = m) : n = m := by
  unfold foldCode at h
  -- where the code point of a folding comes from: the one table, the other, or neither
  cases hfold : lookup? foldRuns n with
  | some k =>
    rw [hfold, Option.getD_some] at h
    rw [← h] at hm ⊢
    exact (eq_of_lookup?_foldRuns hfold hm).symm
  | none =>
    rw [hfold, Option.getD_none] at h
    cases hlower : lookup? lowerRuns n with
    | none => rwa [hlower, Option.getD_none] at h
    | some k =>
      -- an image of lower-casing is settled, and a drifting character is not
      rw [hlower, Option.getD_some] at h
      obtain ⟨hnone, hdotted⟩ := lookup?_lowerRuns_image hlower
      rw [h] at hnone hdotted
      rcases (of_covers_driftingChars hm).2 with heq | hsome
      · exact absurd heq hdotted
      · exact absurd hnone hsome

/-- No other character folds to what a drifting character folds to. So a glob with such a character
matches only texts that hold the character itself. -/
theorem eq_of_foldChar_eq {c d : Char} (hd : drifts d = true) (h : foldChar c = foldChar d) :
    c = d := by
  have hfold : Char.ofNat (foldCode c.toNat) = d := by
    rw [← foldChar_eq_ofNat_foldCode, h, foldChar_eq_ofNat_foldCode,
      (of_covers_driftingChars hd).1, Char.ofNat_toNat]
  by_cases hvalid : (foldCode c.toNat).isValidChar
  · have hcode : foldCode c.toNat = d.toNat := by
      rw [← hfold, toNat_ofNat_of_isValidChar hvalid]
    exact Char.toNat_inj.1 (eq_of_foldCode_eq hd hcode)
  · -- what is no code point reads as the null character, which does not drift
    rw [Char.ofNat, dif_neg hvalid] at hfold
    rw [← hfold] at hd
    cases hd

/-- A drifting character is not settled, so it is found in no text in lower case. -/
theorem not_isSettled_of_drifts {c : Char} (h : drifts c = true) : ¬ IsSettled c := by
  intro hsettled
  have hlower := hsettled [] []
  have hsigma : c ≠ 'Σ' := by
    rintro rfl
    cases h
  rw [lowerAt, if_neg hsigma] at hlower
  by_cases hdotted : c = 'İ'
  · rw [if_pos hdotted] at hlower
    cases hlower
  · rw [if_neg hdotted, List.singleton_inj] at hlower
    have hcode : c.toNat ≠ 'İ'.toNat := mt Char.toNat_inj.1 hdotted
    have hsome := (of_covers_driftingChars h).2.resolve_left hcode
    obtain ⟨m, hm⟩ := Option.ne_none_iff_exists'.1 hsome
    have himage : m = c.toNat := by
      rw [lowerChar, hm] at hlower
      rw [← toNat_ofNat_of_lookup? hm]
      exact congrArg Char.toNat hlower
    exact hsome (himage ▸ (lookup?_lowerRuns_image hm).1)

theorem isProper_of_mem_foldRuns {r : CaseRun} (h : r ∈ foldRuns) : r.IsProper := by
  revert r
  unfold CaseRun.IsProper
  decide

/-- A character before the letters is the folding of itself only. In particular no other character
folds to a star. -/
theorem foldChar_eq_iff {c d : Char} (hd : d.toNat < 'A'.toNat) : foldChar c = d ↔ c = d := by
  unfold foldChar
  cases hlookup : lookup? foldRuns c.toNat with
  | none => exact lowerChar_eq_iff hd
  | some m => exact ofNat_eq_iff_of_lookup? (fun _ => isProper_of_mem_foldRuns) hlookup hd

end FilterQuery.Text
