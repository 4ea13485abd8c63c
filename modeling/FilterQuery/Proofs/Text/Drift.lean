import Mathlib.Data.List.Infix
import FilterQuery.Proofs.Text.Folding

/-!
# Texts with the same lower case

Two texts with the same lower case fold alike, unless a drifting character is in one of them.
Whether a text has such a partner can be seen from its lower case: a drifting character leaves its
own lower case there, and wherever that stands, the drifting character could have stood
(`steady_iff`). A text without a partner of this kind is `Steady`, and all texts with its lower case
fold as it does (`map_foldChar_eq_of_lowerCase_eq`).
-/

namespace FilterQuery.Text

theorem toList_lowerCase (s : String) : (lowerCase s).toList = lowerAfter [] s.toList :=
  String.toList_ofList

/-- The lower case of no drifting character occurs in the lower case of the text. -/
def Steady (s : String) : Prop :=
  ∀ d, drifts d = true → ¬ lowerAt [] d [] <:+: (lowerCase s).toList

/-- A text is steady if the drifting characters that the ranges list leave no trace in its lower
case. There are finitely many, so it can be decided. -/
theorem steady_iff_forall_ranges {s : String} :
    Steady s ↔ ∀ r ∈ driftingChars.ranges, ∀ i < r.2 + 1 - r.1,
      ¬ lowerAt [] (Char.ofNat (r.1 + i)) [] <:+: (lowerCase s).toList := by
  constructor
  · intro h r hr i hi
    have hdrifts : ∀ r ∈ driftingChars.ranges, ∀ i < r.2 + 1 - r.1,
        drifts (Char.ofNat (r.1 + i)) = true := by
      decide
    exact h _ (hdrifts r hr i hi)
  · intro h d hd
    obtain ⟨r, hr, hfirst, hlast⟩ := CharClass.exists_range_of_covers hd
    have hpoint := h r hr (d.toNat - r.1) (by omega)
    rwa [show r.1 + (d.toNat - r.1) = d.toNat by omega, Char.ofNat_toNat] at hpoint

instance (s : String) : Decidable (Steady s) := decidable_of_iff _ steady_iff_forall_ranges.symm

/-! ## Drifting characters in a text -/

/-- The lower case of a drifting character does not depend on what stands beside it: only that of a
sigma does. -/
theorem lowerAt_of_drifts {d : Char} (h : drifts d = true) (before after : List Char) :
    lowerAt before d after = lowerAt [] d [] := by
  have hsigma : d ≠ 'Σ' := by
    rintro rfl
    cases h
  unfold lowerAt
  rw [if_neg hsigma, if_neg hsigma]

/-- A drifting character leaves its lower case in the lower case of the text. -/
theorem isInfix_lowerAfter {d : Char} (hd : drifts d = true) {cs : List Char} (h : d ∈ cs)
    (before : List Char) : lowerAt [] d [] <:+: lowerAfter before cs := by
  induction cs generalizing before with
  | nil => cases h
  | cons c cs ih =>
    rw [lowerAfter]
    rcases List.mem_cons.1 h with rfl | hmem
    · rw [lowerAt_of_drifts hd before cs]
      exact (List.prefix_append _ _).isInfix
    · exact (ih hmem (c :: before)).trans (List.suffix_append _ _).isInfix

theorem lowerAfter_append {cs : List Char} (h : ∀ c ∈ cs, IsSettled c) (before ds : List Char) :
    lowerAfter before (cs ++ ds) = cs ++ lowerAfter (cs.reverse ++ before) ds := by
  induction cs generalizing before with
  | nil => rfl
  | cons c cs ih =>
    rw [List.forall_mem_cons] at h
    rw [List.cons_append, lowerAfter, h.1, ih h.2, List.reverse_cons, List.append_assoc]
    rfl

/-- A drifting character can stand where its lower case stands in a settled text. What stands around
it is in lower case already and does not change. -/
theorem exists_lowerAfter_eq {d : Char} (hd : drifts d = true) {cs : List Char}
    (hcs : ∀ c ∈ cs, IsSettled c) (h : lowerAt [] d [] <:+: cs) :
    ∃ ds, d ∈ ds ∧ lowerAfter [] ds = cs := by
  obtain ⟨before, after, rfl⟩ := h
  refine ⟨before ++ d :: after, by simp, ?_⟩
  have hbefore : ∀ c ∈ before, IsSettled c := fun c hc => hcs c (by simp [hc])
  have hafter : ∀ c ∈ after, IsSettled c := fun c hc => hcs c (by simp [hc])
  -- around it everything is settled, so only the character itself changes
  rw [lowerAfter_append hbefore, lowerAfter, lowerAt_of_drifts hd, lowerAfter_eq_self hafter,
    List.append_assoc]

/-- A text is steady exactly if no text with its lower case has a drifting character. -/
theorem steady_iff {s : String} :
    Steady s ↔ ∀ t : String, lowerCase t = lowerCase s → ∀ c ∈ t.toList, drifts c = false := by
  constructor
  · intro h t heq c hc
    refine eq_false_of_ne_true fun hdrifts => h c hdrifts ?_
    rw [← heq, toList_lowerCase]
    exact isInfix_lowerAfter hdrifts hc []
  -- the drifting character is put where its lower case occurs, which gives a text of the same lower
  -- case
  · intro h d hd hoccurs
    rw [toList_lowerCase] at hoccurs
    obtain ⟨ds, hmem, hlower⟩ :=
      exists_lowerAfter_eq hd (fun _ => isSettled_of_mem_lowerAfter) hoccurs
    have heq : lowerCase (String.ofList ds) = lowerCase s := by
      rw [lowerCase, String.toList_ofList, hlower, lowerCase]
    have hsteady := h (String.ofList ds) heq d (by rwa [String.toList_ofList])
    rw [hd] at hsteady
    cases hsteady

/-! ## Foldings and lengths -/

/-- A text without drifting characters folds as its lower case does. -/
theorem map_foldChar_lowerCase {s : String} (h : ∀ c ∈ s.toList, drifts c = false) :
    (lowerCase s).toList.map foldChar = s.toList.map foldChar := by
  rw [toList_lowerCase]
  exact map_foldChar_lowerAfter h []

/-- All texts with the lower case of a steady text fold as it does. They all have the same lower
case, and none of them has a character that would fold differently. -/
theorem map_foldChar_eq_of_lowerCase_eq {s t : String} (hs : Steady s)
    (h : lowerCase t = lowerCase s) : t.toList.map foldChar = s.toList.map foldChar := by
  have hdrifts := steady_iff.1 hs
  calc t.toList.map foldChar
      = (lowerCase t).toList.map foldChar := (map_foldChar_lowerCase (hdrifts t h)).symm
    _ = (lowerCase s).toList.map foldChar := by rw [h]
    _ = s.toList.map foldChar := map_foldChar_lowerCase (hdrifts s rfl)

theorem one_le_length_lowerAt (before : List Char) (c : Char) (after : List Char) :
    1 ≤ (lowerAt before c after).length := by
  unfold lowerAt
  split
  · split <;> exact Nat.le_refl 1
  · split
    · exact Nat.le_succ 1
    · exact Nat.le_refl 1

/-- Lower-casing never makes a text shorter. The dotted capital I makes it longer by one, and
nothing else changes the length. -/
theorem length_le_length_lowerCase (s : String) :
    s.toList.length ≤ (lowerCase s).toList.length := by
  have hafter (before cs : List Char) : cs.length ≤ (lowerAfter before cs).length := by
    induction cs generalizing before with
    | nil => exact Nat.le_refl 0
    | cons c cs ih =>
      have hc := one_le_length_lowerAt before c cs
      have hcs := ih (c :: before)
      rw [lowerAfter, List.length_cons, List.length_append]
      omega
  rw [toList_lowerCase]
  exact hafter [] s.toList

theorem length_lowerCase {s : String} (h : ∀ c ∈ s.toList, drifts c = false) :
    (lowerCase s).toList.length = s.toList.length := by
  have hfold := congrArg List.length (map_foldChar_lowerCase h)
  rwa [List.length_map, List.length_map] at hfold

end FilterQuery.Text
