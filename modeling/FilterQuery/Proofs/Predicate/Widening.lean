import Mathlib.Data.List.Forall2
import FilterQuery.Proofs.Predicate.Equality
import FilterQuery.Proofs.Predicate.IgnoringCase
import FilterQuery.Proofs.Text.Drift

/-!
# Stars added to a text

A star can stand for no character at all, so a text with stars added to it should be accepted
wherever the text itself is. Case decides whether it is. Equality compares two texts by their lower
case, a glob compares them character by character by their foldings, and a drifting character keeps
the two apart. So stars lose no document exactly if the text is steady (`fits_of_lowerCase_eq_iff`):

* the texts with the lower case of a steady text fold as it does, and stars take no characters
  (`fits_of_forall₂`);
* every other text has a partner with the same lower case that no choice of runs can match, because
  there is a drifting character on one side only (`exists_lowerCase_eq_not_fits`).
-/

namespace FilterQuery

namespace Glob

/-- The pattern without its stars. -/
def unstarred (pattern : List Char) : List Char := pattern.filter (· != star)

theorem unstarred_cons {x : Char} (hx : x ≠ star) (pattern : List Char) :
    unstarred (x :: pattern) = x :: unstarred pattern :=
  List.filter_cons_of_pos (bne_iff_ne.2 hx)

theorem unstarred_append (a b : List Char) : unstarred (a ++ b) = unstarred a ++ unstarred b :=
  List.filter_append a b

theorem unstarred_eq_self {pattern : List Char} (h : star ∉ pattern) :
    unstarred pattern = pattern :=
  List.filter_eq_self.2 fun _ hx => bne_iff_ne.2 fun heq => h (heq ▸ hx)

section Stars

variable {same : Char → Char → Bool} {isRun : Char → Bool}

/-- Stars that take no character leave the other characters to match one by one. So a glob accepts
at least the text that it is made from. -/
theorem fits_of_forall₂ {pattern text : List Char}
    (h : List.Forall₂ (fun x c => same x c = true) (unstarred pattern) text) :
    Fits same isRun pattern text := by
  induction pattern generalizing text with
  | nil =>
    rw [List.forall₂_nil_left_iff.1 h]
    exact .done
  | cons x pattern ih =>
    by_cases hx : x = star
    · subst hx
      exact fits_star_iff.2 ⟨[], text, rfl, by simp, ih h⟩
    · rw [unstarred_cons hx] at h
      obtain ⟨c, rest, hc, hrest, rfl⟩ := List.forall₂_cons_left_iff.1 h
      exact .char hx hc (ih hrest)

/-- Without the runs, a text that fits a pattern has the other characters of it. What is left is in
the order of the pattern, so it can be compared with it character by character. -/
theorem Fits.exists_sublist {pattern text : List Char} (h : Fits same isRun pattern text) :
    ∃ kept, kept.Sublist text ∧
      List.Forall₂ (fun x c => same x c = true) (unstarred pattern) kept := by
  induction h with
  | done => exact ⟨[], List.Sublist.refl [], .nil⟩
  | @run pattern run text _ _ ih =>
    obtain ⟨kept, hsublist, hkept⟩ := ih
    exact ⟨kept, hsublist.trans (List.sublist_append_right run text), hkept⟩
  | @char x c pattern text hx hc _ ih =>
    obtain ⟨kept, hsublist, hkept⟩ := ih
    refine ⟨c :: kept, hsublist.cons_cons c, ?_⟩
    rw [unstarred_cons hx]
    exact .cons hc hkept

end Stars

/-- Up to case, two texts match character by character exactly if they have the same foldings. -/
theorem forall₂_sameChar_iff {a b : List Char} :
    List.Forall₂ (fun x c => Text.sameChar true x c = true) a b ↔
      a.map Text.foldChar = b.map Text.foldChar := by
  rw [← List.forall₂_eq_eq_eq, List.forall₂_map_left_iff, List.forall₂_map_right_iff]
  simp only [Text.sameChar, if_true, beq_iff_eq]

/-- A text without stars that is not steady has a partner with the same lower case that does not fit
it, wherever stars are put. -/
theorem exists_lowerCase_eq_not_fits {v : String} (hv : ¬ Text.Steady v) {pattern : List Char}
    (hpattern : unstarred pattern = v.toList) :
    ∃ text : String, Text.lowerCase text = Text.lowerCase v ∧
      ¬ Fits (Text.sameChar true) isRunChar pattern text.toList := by
  by_cases hdrifts : ∃ x ∈ v.toList, Text.drifts x = true
  · -- the lower case of the text itself: it has nothing that folds as the drifting character
    obtain ⟨x, hx, hdrifts⟩ := hdrifts
    refine ⟨Text.lowerCase v, Text.lowerCase_lowerCase v, fun hfits => ?_⟩
    rw [← hpattern] at hx
    obtain ⟨hx, hstar⟩ := List.mem_filter.1 hx
    obtain ⟨c, hc, hfold⟩ := hfits.exists_foldChar_eq hx (bne_iff_ne.1 hstar)
    rw [Text.eq_of_foldChar_eq hdrifts hfold, Text.toList_lowerCase] at hc
    exact Text.not_isSettled_of_drifts hdrifts (Text.isSettled_of_mem_lowerAfter hc)
  · -- a text with a drifting character: it is no longer than `v`, so there are no runs
    simp only [not_exists, not_and, Bool.not_eq_true] at hdrifts
    rw [Text.steady_iff] at hv
    simp only [not_forall, Bool.not_eq_false] at hv
    obtain ⟨text, heq, d, hd, hdrifting⟩ := hv
    refine ⟨text, heq, fun hfits => ?_⟩
    obtain ⟨kept, hsublist, hkept⟩ := hfits.exists_sublist
    rw [hpattern] at hkept
    have hlength : text.toList.length ≤ kept.length :=
      calc text.toList.length
          ≤ (Text.lowerCase text).toList.length := Text.length_le_length_lowerCase text
        _ = (Text.lowerCase v).toList.length := by rw [heq]
        _ = v.toList.length := Text.length_lowerCase hdrifts
        _ = kept.length := hkept.length_eq
    rw [hsublist.eq_of_length_le hlength, forall₂_sameChar_iff] at hkept
    have hfold : Text.foldChar d ∈ v.toList.map Text.foldChar := by
      rw [hkept]
      exact List.mem_map_of_mem hd
    obtain ⟨x, hx, hfold⟩ := List.mem_map.1 hfold
    rw [Text.eq_of_foldChar_eq hdrifting hfold] at hx
    rw [hdrifts d hx] at hdrifting
    cases hdrifting

/-- Wherever stars are put into a text that has none, it fits all texts with its lower case exactly
if it is steady. -/
theorem fits_of_lowerCase_eq_iff {v : String} {pattern : List Char}
    (hpattern : unstarred pattern = v.toList) :
    (∀ text : String, Text.lowerCase text = Text.lowerCase v →
        Fits (Text.sameChar true) isRunChar pattern text.toList) ↔ Text.Steady v := by
  constructor
  · intro h
    refine Decidable.byContradiction fun hv => ?_
    obtain ⟨text, heq, hfits⟩ := exists_lowerCase_eq_not_fits hv hpattern
    exact hfits (h text heq)
  · intro hv text heq
    apply fits_of_forall₂
    rw [hpattern, forall₂_sameChar_iff, Text.map_foldChar_eq_of_lowerCase_eq hv heq]

end Glob

namespace Predicate

/-- Whether one constraint accepts what another one does is decided by the texts they accept. A
document can hold any text, and both constraints look at nothing else in it. -/
theorem accepts_star_of_accepts_plain_iff {ignoreCase : Bool} {s : Selector} {v w : String}
    (hv : Glob.star ∉ v.toList) (hw : Glob.star ∈ w.toList) :
    (∀ doc, (ofEquality ignoreCase s .equal (.text v)).accepts doc = true →
        (ofEquality ignoreCase s .equal (.text w)).accepts doc = true) ↔
      ∀ text, sameAs ignoreCase (.string text) (.text v) = true →
        Glob.Fits (Text.sameChar ignoreCase) Glob.isRunChar w.toList text.toList := by
  have hplain : (Literal.text v).IsPlain := hv
  simp only [accepts_plain_iff hplain, accepts_star_iff hw]
  constructor
  · intro h text hsame
    -- a document that holds the text alone: whatever fits in it is that text
    obtain ⟨text', hmem, hfits⟩ := h (holding s (.string text))
      ⟨.string text, by rw [candidates_holding]; exact List.mem_cons_self, hsame⟩
    rw [candidates_holding, List.mem_singleton, Json.string.injEq] at hmem
    rwa [hmem] at hfits
  · rintro h doc ⟨c, hc, hsame⟩
    cases c with
    | string text => exact ⟨text, hc, h text hsame⟩
    | null | bool | number | array | object => cases hsame

/-- A text with stars put into it accepts every document that the text itself accepts exactly if
case counts or the text is steady. It does not matter where the stars are. -/
theorem accepts_widened_iff {ignoreCase : Bool} {s : Selector} {v w : String}
    (hv : Glob.star ∉ v.toList) (hw : Glob.star ∈ w.toList)
    (hunstarred : Glob.unstarred w.toList = v.toList) :
    (∀ doc, (ofEquality ignoreCase s .equal (.text v)).accepts doc = true →
        (ofEquality ignoreCase s .equal (.text w)).accepts doc = true) ↔
      (ignoreCase = true → Text.Steady v) := by
  rw [accepts_star_of_accepts_plain_iff hv hw]
  cases ignoreCase with
  | true =>
    simp only [sameAs, if_true, beq_iff_eq, true_imp_iff]
    exact Glob.fits_of_lowerCase_eq_iff hunstarred
  | false =>
    -- the only text that is accepted is the one that is written, and stars can take nothing in it
    refine iff_of_true (fun text hsame => Glob.fits_of_forall₂ ?_) (absurd · Bool.false_ne_true)
    obtain rfl : text = v := eq_of_beq hsame
    rw [hunstarred]
    exact List.forall₂_same.2 fun c _ => beq_self_eq_true c

/-- An equality constraint with a text that has no star has a predicate if its selector is permitted
and stands for a selector, and so it has with stars before the text, behind it or on both sides. The
stars lose no document exactly if case counts or the text is steady. -/
theorem accepts_widened_iff_steady {options : Options} {s s' : Selector}
    (hs : options.resolve s = .ok s') {v : String} (hv : '*' ∉ v.toList) :
    ∃ build : String → Predicate,
      (∀ t, ofQuery (.equality s .equal (.text t)) options = .ok (build t)) ∧
      ∀ w ∈ [v ++ "*", "*" ++ v, "*" ++ v ++ "*"],
        (∀ doc, (build v).accepts doc = true → (build w).accepts doc = true) ↔
          (options.ignoreCase = true → Text.Steady v) := by
  refine ⟨fun t => ofEquality options.ignoreCase s' .equal (.text t),
    fun t => ofQuery_equality hs .equal (.text t), fun w hw => ?_⟩
  have hunstarred := Glob.unstarred_eq_self hv
  -- the three ways to add stars have in common that the text is what remains without them
  have hstar : Glob.star ∈ w.toList ∧ Glob.unstarred w.toList = v.toList := by
    have hone : "*".toList = [Glob.star] := rfl
    simp only [List.mem_cons, List.not_mem_nil, or_false] at hw
    rcases hw with rfl | rfl | rfl
    all_goals
      simp only [String.toList_append, hone, Glob.unstarred_append, hunstarred]
      simp [Glob.unstarred]
  exact accepts_widened_iff hv hstar.1 hstar.2

/-- The capital sharp s has the small one as its lower case and as its folding, so the text is
steady and stars on both sides lose nothing. -/
theorem accepts_widened_iff_steady_sharp_s :
    '*' ∉ "Maß".toList ∧ Text.Steady "Maß" ∧
      ∃ p q, ofQuery (.equality ⟨none, "name"⟩ .equal (.text "Maß")) { ignoreCase := true } =
          .ok p ∧
        ofQuery (.equality ⟨none, "name"⟩ .equal (.text "*Maß*")) { ignoreCase := true } =
          .ok q ∧
        p.accepts (.object [("name", .string "MAẞ")]) = true ∧
        q.accepts (.object [("name", .string "MAẞ")]) = true := by
  have hv : '*' ∉ "Maß".toList := by decide
  have hsteady : Text.Steady "Maß" := by decide +kernel
  have hs : Options.resolve { ignoreCase := true } ⟨none, "name"⟩ = .ok ⟨none, "name"⟩ := rfl
  obtain ⟨build, hbuild, hwidened⟩ := accepts_widened_iff_steady hs hv
  have haccepts : (build "Maß").accepts (.object [("name", .string "MAẞ")]) = true := by
    rw [← Except.ok.inj (hbuild "Maß")]
    decide
  refine ⟨hv, hsteady, _, _, hbuild "Maß", hbuild "*Maß*", haccepts, ?_⟩
  exact (hwidened "*Maß*" (by decide)).2 (fun _ => hsteady) _ haccepts

/-- The lower case of the dotted capital I is two characters, and its folding is itself. So a text
with it accepts its lower case, and no longer does once a star is added. -/
theorem accepts_and_not_accepts_widened :
    ∃ p q, ofQuery (.equality ⟨none, "name"⟩ .equal (.text "İstanbul")) { ignoreCase := true } =
        .ok p ∧
      ofQuery (.equality ⟨none, "name"⟩ .equal (.text "İstanbul*")) { ignoreCase := true } = .ok q ∧
      p.accepts (.object [("name", .string "i\u0307stanbul")]) = true ∧
      q.accepts (.object [("name", .string "i\u0307stanbul")]) = false :=
  ⟨_, _, rfl, rfl, by decide, by decide⟩

end Predicate

end FilterQuery
