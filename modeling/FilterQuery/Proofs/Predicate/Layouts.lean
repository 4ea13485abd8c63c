import Mathlib.Data.List.Forall2
import FilterQuery.Proofs.Predicate.Equality

/-!
# Texts laid out along stars

The stars of a pattern cut it into pieces. A text matches the pattern if it consists of these
pieces, in order, with a run of characters for each star between them. `Layout` is a text with its
pieces and runs marked, `Follows` says that they are those of a pattern, and it has one rule for each
way a pattern begins:

* `follows_nil_iff`: the empty pattern is laid out by the empty text only;
* `follows_star_iff`: a star puts a run before a layout of the rest;
* `follows_cons_iff`: another character puts a character before the first piece.

A text that fits a pattern goes by the same rules, so it is the text of a layout that follows the
pattern (`fits_iff_exists_layout`). For the predicate of a text with stars this says which documents
it accepts, piece by piece (`accepts_star_iff_exists_layout`).
-/

namespace FilterQuery

namespace Glob

/-- A text cut into pieces, with a run of characters before each piece but the first. -/
structure Layout where
  first : List Char
  /-- Each further piece, behind the run before it. -/
  rest : List (List Char × List Char)

namespace Layout

/-- The text that is laid out. -/
def text (l : Layout) : List Char := l.first ++ l.rest.flatMap fun part => part.1 ++ part.2

/-- The pieces, of which there is at least one. -/
def pieces (l : Layout) : List (List Char) := l.first :: l.rest.map Prod.snd

/-- The runs, one fewer than there are pieces. -/
def runs (l : Layout) : List (List Char) := l.rest.map Prod.fst

/-- The last piece, which is the first one if there is no other. -/
def last (l : Layout) : List Char := l.pieces.getLast (List.cons_ne_nil _ _)

/-- The layout with a character put before its first piece. -/
def push (c : Char) (l : Layout) : Layout := ⟨c :: l.first, l.rest⟩

/-- The layout with a run put before its first piece, and an empty piece before that. -/
def pushRun (run : List Char) (l : Layout) : Layout := ⟨[], (run, l.first) :: l.rest⟩

theorem text_pushRun (run : List Char) (l : Layout) : (l.pushRun run).text = run ++ l.text := by
  simp [text, pushRun]

/-- The text begins with the first piece: a pattern without a star at its start is anchored there.
-/
theorem first_prefix_text (l : Layout) : l.first <+: l.text := List.prefix_append _ _

/-- The text ends with the last piece: a pattern without a star at its end is anchored there. -/
theorem last_suffix_text (l : Layout) : l.last <:+ l.text := by
  obtain ⟨first, rest⟩ := l
  induction rest generalizing first with
  | nil => exact ⟨[], by simp [last, pieces, text]⟩
  | cons part rest ih =>
    -- the layout without its first piece and run has the same last piece
    obtain ⟨before, hbefore⟩ := ih part.2
    refine ⟨first ++ part.1 ++ before, ?_⟩
    show _ ++ Layout.last ⟨part.2, rest⟩ = first ++ (part.1 ++ part.2 ++ rest.flatMap _)
    rw [List.append_assoc, hbefore]
    simp [text]

end Layout

section Follows

variable {same : Char → Char → Bool} {isRun : Char → Bool}

/-- The pieces and the runs of the layout are those of the pattern. -/
structure Layout.Follows (same : Char → Char → Bool) (isRun : Char → Bool) (pattern : List Char)
    (l : Layout) : Prop where
  /-- Each piece has as many characters as the one of the pattern, and they are the same. -/
  pieces : List.Forall₂ (List.Forall₂ fun x c => same x c = true) (pattern.splitOn star) l.pieces
  runs : ∀ run ∈ l.runs, ∀ c ∈ run, isRun c = true

/-- The empty pattern has one piece, which is empty, and no star, so only the empty layout follows
it. -/
theorem follows_nil_iff {l : Layout} : l.Follows same isRun [] ↔ l = ⟨[], []⟩ := by
  constructor
  · rintro ⟨hpieces, -⟩
    obtain ⟨first, rest⟩ := l
    rw [List.splitOn_nil] at hpieces
    cases hpieces with
    | cons hfirst hrest =>
      rw [List.forall₂_nil_left_iff] at hfirst hrest
      exact congrArg₂ Layout.mk hfirst (List.map_eq_nil_iff.1 hrest)
  · rintro rfl
    exact ⟨.cons .nil .nil, fun _ h => nomatch h⟩

/-- A star at the start of a pattern makes an empty first piece with a run behind it. What comes
after the run is a layout of the rest of the pattern. -/
theorem follows_star_iff {pattern : List Char} {l : Layout} :
    l.Follows same isRun (star :: pattern) ↔
      ∃ run l', l = Layout.pushRun run l' ∧ (∀ c ∈ run, isRun c = true) ∧
        l'.Follows same isRun pattern := by
  have hsplit : (star :: pattern).splitOn star = [] :: pattern.splitOn star := by
    rw [List.splitOn_cons_eq_if_modifyHead, if_pos (beq_self_eq_true star)]
  constructor
  · rintro ⟨hpieces, hruns⟩
    obtain ⟨first, rest⟩ := l
    rw [hsplit] at hpieces
    cases hpieces with
    | cons hfirst hrest =>
      rw [List.forall₂_nil_left_iff] at hfirst
      subst hfirst
      -- the rest of the pattern has a piece, so there is a run with a piece behind it
      cases rest with
      | nil => exact absurd (List.forall₂_nil_right_iff.1 hrest) (List.splitOn_ne_nil _ _)
      | cons part rest =>
        have hall := List.forall_mem_cons.1 hruns
        exact ⟨part.1, ⟨part.2, rest⟩, rfl, hall.1, hrest, hall.2⟩
  · rintro ⟨run, l', rfl, hrun, hl'⟩
    refine ⟨?_, List.forall_mem_cons.2 ⟨hrun, hl'.runs⟩⟩
    rw [hsplit]
    exact .cons .nil hl'.pieces

/-- Another character at the start of a pattern belongs to its first piece. It stands for one
character of the text, which is the same, and what comes after is a layout of the rest. -/
theorem follows_cons_iff {x : Char} (hx : x ≠ star) {pattern : List Char} {l : Layout} :
    l.Follows same isRun (x :: pattern) ↔
      ∃ c l', l = Layout.push c l' ∧ same x c = true ∧ l'.Follows same isRun pattern := by
  -- the rest of the pattern has a first piece, and the character is put before it
  obtain ⟨piece, pieces, hpattern⟩ :=
    List.exists_cons_of_ne_nil (List.splitOn_ne_nil star pattern)
  have hsplit : (x :: pattern).splitOn star = (x :: piece) :: pieces := by
    rw [List.splitOn_cons_eq_if_modifyHead, if_neg (by simpa using hx), hpattern,
      List.modifyHead_cons]
  constructor
  · rintro ⟨hpieces, hruns⟩
    obtain ⟨first, rest⟩ := l
    rw [hsplit] at hpieces
    cases hpieces with
    | cons hfirst hrest =>
      obtain ⟨c, first', hc, hfirst', rfl⟩ := List.forall₂_cons_left_iff.1 hfirst
      refine ⟨c, ⟨first', rest⟩, rfl, hc, ?_, hruns⟩
      rw [hpattern]
      exact .cons hfirst' hrest
  · rintro ⟨c, ⟨first, rest⟩, rfl, hc, hpieces, hruns⟩
    rw [hpattern] at hpieces
    refine ⟨?_, hruns⟩
    rw [hsplit]
    cases hpieces with
    | cons hfirst hrest => exact .cons (.cons hc hfirst) hrest

/-- A text fits a pattern exactly if it is the text of a layout that follows the pattern. The two
notions have the same three rules, so this goes by induction on the pattern. -/
theorem fits_iff_exists_layout {pattern text : List Char} :
    Fits same isRun pattern text ↔ ∃ l : Layout, l.text = text ∧ l.Follows same isRun pattern := by
  induction pattern generalizing text with
  | nil =>
    rw [fits_nil_iff]
    constructor
    · rintro rfl
      exact ⟨⟨[], []⟩, rfl, follows_nil_iff.2 rfl⟩
    · rintro ⟨l, rfl, hl⟩
      rw [follows_nil_iff.1 hl]
      rfl
  | cons x pattern ih =>
    by_cases hx : x = star
    · subst hx
      rw [fits_star_iff]
      constructor
      · rintro ⟨run, rest, rfl, hrun, hrest⟩
        obtain ⟨l, rfl, hl⟩ := ih.1 hrest
        exact ⟨l.pushRun run, l.text_pushRun run, follows_star_iff.2 ⟨run, l, rfl, hrun, hl⟩⟩
      · rintro ⟨l, rfl, hl⟩
        obtain ⟨run, l', rfl, hrun, hl'⟩ := follows_star_iff.1 hl
        exact ⟨run, l'.text, l'.text_pushRun run, hrun, ih.2 ⟨l', rfl, hl'⟩⟩
    · rw [fits_cons_iff hx]
      constructor
      · rintro ⟨c, rest, rfl, hc, hrest⟩
        obtain ⟨l, rfl, hl⟩ := ih.1 hrest
        exact ⟨l.push c, rfl, (follows_cons_iff hx).2 ⟨c, l, rfl, hc, hl⟩⟩
      · rintro ⟨l, rfl, hl⟩
        obtain ⟨c, l', rfl, hc, hl'⟩ := (follows_cons_iff hx).1 hl
        exact ⟨c, l'.text, rfl, hc, ih.2 ⟨l', rfl, hl'⟩⟩

end Follows

end Glob

namespace Predicate

/-- An equality constraint with a star in its text has a predicate if its selector is permitted and
stands for a selector. The predicate accepts a document exactly if the selector points at a text
that is the pieces between the stars, in order, with a run for each star between them: each piece
has the length of the one that is written and the same characters, up to case if case is ignored,
and no run has a line feed. So it accepts no document for a value that is not a text. -/
theorem accepts_star_iff_exists_layout {options : Options} {s s' : Selector}
    (hs : options.resolve s = .ok s') {p : String} (hstar : '*' ∈ p.toList) :
    ∃ predicate, ofQuery (.equality s .equal (.text p)) options = .ok predicate ∧
      ∀ doc, predicate.accepts doc = true ↔
        ∃ text, .string text ∈ candidates s' doc ∧
          ∃ l : Glob.Layout, l.text = text.toList ∧
            List.Forall₂ (List.Forall₂ fun x c => Text.sameChar options.ignoreCase x c = true)
              (p.toList.splitOn '*') l.pieces ∧
            ∀ run ∈ l.runs, '\n' ∉ run := by
  refine ⟨_, ofQuery_equality hs .equal (.text p), fun doc => ?_⟩
  -- a run may hold every character but the line feed
  have hrun (run : List Char) : (∀ c ∈ run, Glob.isRunChar c = true) ↔ '\n' ∉ run := by
    simp only [Glob.isRunChar, bne_iff_ne]
    exact ⟨fun h hmem => h _ hmem rfl, fun h c hc hfeed => h (hfeed ▸ hc)⟩
  rw [accepts_star_iff hstar]
  simp only [Glob.fits_iff_exists_layout]
  constructor
  · rintro ⟨text, hmem, l, htext, hpieces, hruns⟩
    exact ⟨text, hmem, l, htext, hpieces, fun run h => (hrun run).1 (hruns run h)⟩
  · rintro ⟨text, hmem, l, htext, hpieces, hruns⟩
    exact ⟨text, hmem, l, htext, hpieces, fun run h => (hrun run).2 (hruns run h)⟩

/-- An alias through an association, and letters with several forms: the Kelvin sign for `k`, the
long s for `s`. -/
theorem accepts_star_iff_exists_layout_kelvin_and_long_s :
    let options : Options :=
      { ignoreCase := true, allowed := some ["n"], aliases := [("n", "who.name")] }
    options.resolve ⟨none, "n"⟩ = .ok ⟨some "who", "name"⟩ ∧ '*' ∈ "k.*s".toList ∧
      ∃ predicate, ofQuery (.equality ⟨none, "n"⟩ .equal (.text "k.*s")) options = .ok predicate ∧
        predicate.accepts
          (.object [("who", .array [.object [("name", .string "\u212A.*.\u017F")]])]) = true ∧
        predicate.accepts (.object [("who", .object [("name", .number (.integer 3))])]) = false := by
  intro options
  have hs : options.resolve ⟨none, "n"⟩ = .ok ⟨some "who", "name"⟩ := rfl
  have hstar : '*' ∈ "k.*s".toList := by decide
  obtain ⟨predicate, hpredicate, haccepts⟩ := accepts_star_iff_exists_layout hs hstar
  refine ⟨hs, hstar, predicate, hpredicate, ?_, ?_⟩
  · -- the run is `*.`
    refine (haccepts _).2 ⟨"\u212A.*.\u017F", List.mem_cons_self,
      ⟨['\u212A', '.'], [(['*', '.'], ['\u017F'])]⟩, by decide, ?_, by simp [Glob.Layout.runs]⟩
    rw [show "k.*s".toList.splitOn '*' = [['k', '.'], ['s']] by decide]
    exact .cons (.cons (by decide) (.cons (by decide) .nil))
      (.cons (.cons (by decide) .nil) .nil)
  · refine eq_false_of_ne_true fun h => ?_
    obtain ⟨text, hmem, -⟩ := (haccepts _).1 h
    cases List.mem_singleton.1 hmem

end Predicate

end FilterQuery
