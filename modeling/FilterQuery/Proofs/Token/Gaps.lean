import FilterQuery.Proofs.Token.Spans

/-!
# Blanks between tokens

Blanks may be put into a text anywhere but inside a token: before the first one, between two
neighbours, behind the last one. `Gaps spans` is such a choice of blanks, `insert` puts them into the
text, and `shift` says where a token that starts at a position starts then.

Main statement: `lex_insert`, the tokens stay the same and move to their new places. The induction
goes along the spans. Its one delicate point is that a word still stops where it did: blanks behind
it stop it, and if there are none, the characters that follow it are the same as before, also the
two of `!=`, since these are a token (`wordStop_spread`).
-/

namespace FilterQuery

/-- Blanks to be put into a text in front of the character at each position, but not inside one of
the spans. -/
structure Gaps (spans : List Span) where
  blanks : Nat → List Char
  isBlank : ∀ p, ∀ c ∈ blanks p, Text.isBlank c = true
  outside : ∀ s ∈ spans, ∀ p, s.start < p → p < s.stop → blanks p = []

/-- The characters, the first of them at `position`, each behind the blanks for its position. -/
def spread (blanks : Nat → List Char) (position : Nat) : List Char → List Char
  | [] => []
  | c :: cs => blanks position ++ c :: spread blanks (position + 1) cs

/-- The position at which the blanks for a position are put. -/
def spreadStart (blanks : Nat → List Char) (position : Nat) : Nat :=
  position + ((List.range position).flatMap blanks).length

namespace Gaps

variable {spans : List Span}

/-- The text with the blanks in it. -/
def insert (gaps : Gaps spans) (text : String) : String :=
  String.ofList (spread gaps.blanks 0 text.toList ++ gaps.blanks text.length)

/-- The new position of the character at a position: all blanks up to it stand in front of it. -/
def shift (gaps : Gaps spans) (position : Nat) : Nat :=
  position + ((List.range (position + 1)).flatMap gaps.blanks).length

/-- A character comes behind the blanks for its own position, and these are put where the characters
and blanks before them end. -/
theorem shift_eq (gaps : Gaps spans) (position : Nat) :
    gaps.shift position = spreadStart gaps.blanks position + (gaps.blanks position).length := by
  rw [shift, spreadStart, List.range_succ, List.flatMap_append, List.flatMap_singleton,
    List.length_append, Nat.add_assoc]

/-- The blanks around the spans behind the first one. -/
def tail {s : Span} (gaps : Gaps (s :: spans)) : Gaps spans :=
  ⟨gaps.blanks, gaps.isBlank, fun u hu => gaps.outside u (List.mem_cons_of_mem s hu)⟩

end Gaps

/-- A token at another offset. -/
def PlacedToken.move (f : Nat → Nat) (t : PlacedToken) : PlacedToken := ⟨t.token, f t.offset⟩

/-! ## Texts with blanks put into them -/

section spread

variable (blanks : Nat → List Char)

theorem spread_append (position : Nat) (cs ds : List Char) :
    spread blanks position (cs ++ ds) =
      spread blanks position cs ++ spread blanks (position + cs.length) ds := by
  induction cs generalizing position with
  | nil => rfl
  | cons c cs ih =>
    rw [List.cons_append, spread, spread, ih, List.append_assoc, List.cons_append, List.length_cons,
      Nat.add_assoc, Nat.add_comm 1]

/-- A text with the blanks in it ends where the blanks for the next position begin. -/
theorem length_spread (position : Nat) (cs : List Char) :
    spreadStart blanks position + (spread blanks position cs).length =
      spreadStart blanks (position + cs.length) := by
  induction cs generalizing position with
  | nil => rfl
  | cons c cs ih =>
    have hnext := ih (position + 1)
    have hone : spreadStart blanks (position + 1) =
        spreadStart blanks position + (blanks position).length + 1 := by
      simp only [spreadStart, List.range_succ, List.flatMap_append, List.flatMap_singleton,
        List.length_append]
      omega
    rw [List.length_cons, Nat.add_comm cs.length, ← Nat.add_assoc, ← hnext, hone, spread,
      List.length_append, List.length_cons]
    omega

variable {blanks}

/-- Characters with no blanks inside keep together. This is why a token is still the same token:
blanks are put in front of it and not inside. -/
theorem spread_eq_append {position : Nat} {cs : List Char} (hne : cs ≠ [])
    (hinside : ∀ p, position < p → p < position + cs.length → blanks p = []) :
    spread blanks position cs = blanks position ++ cs := by
  obtain ⟨c, cs, rfl⟩ := List.exists_cons_of_ne_nil hne
  have htail : ∀ (ds : List Char) (q : Nat),
      (∀ p, q ≤ p → p < q + ds.length → blanks p = []) → spread blanks q ds = ds := by
    intro ds
    induction ds with
    | nil => exact fun _ _ => rfl
    | cons d ds ih =>
      intro q hq
      rw [List.length_cons] at hq
      rw [spread, hq q (Nat.le_refl _) (by omega), ih _ fun p hp hlt => hq p (by omega) (by omega)]
      rfl
  rw [List.length_cons] at hinside
  rw [spread, htail cs _ fun p hp hlt => hinside p (by omega) (by omega)]

theorem isBlank_of_mem_spread (hblanks : ∀ p, ∀ c ∈ blanks p, Text.isBlank c = true)
    {w : List Char} (hw : ∀ c ∈ w, Text.isBlank c = true) (position : Nat) :
    ∀ c ∈ spread blanks position w, Text.isBlank c = true := by
  induction w generalizing position with
  | nil => exact List.forall_mem_nil _
  | cons c w ih =>
    obtain ⟨hc, hw⟩ := List.forall_mem_cons.1 hw
    rw [spread]
    exact List.forall_mem_append.2 ⟨hblanks _, List.forall_mem_cons.2 ⟨hc, ih hw _⟩⟩

end spread

/-! ## Words still stop -/

namespace Token

/-- Blanks stop a word, and without any it is what follows that stops it. -/
theorem wordStop_blanks_append {w : List Char} (hw : ∀ c ∈ w, Text.isBlank c = true)
    {rest : List Char} (h : w = [] → WordStop rest) : WordStop (w ++ rest) := by
  cases w with
  | nil => exact h rfl
  | cons c w => exact .blank (hw c List.mem_cons_self)

/-- An equals sign that comes first has no blanks in front of it. -/
theorem head?_blanks_append {w : List Char} (hw : ∀ c ∈ w, Text.isBlank c = true)
    {rest : List Char} (h : (w ++ rest).head? = some '=') : w = [] ∧ rest.head? = some '=' := by
  cases w with
  | nil => exact ⟨rfl, h⟩
  | cons c w =>
    obtain rfl : c = '=' := Option.some.inj h
    exact absurd (hw _ List.mem_cons_self) (by decide)

/-- The token that starts with the characters of `!=` has no others. -/
theorem Occupies.length_eq_two {t : Token} {cs rest more : List Char} (h : t.Occupies cs rest)
    (heq : cs ++ rest = '!' :: '=' :: more) : cs.length = 2 := by
  cases h with
  | word hne _ _ hrun => exact absurd (heq ▸ .notEqual) (hrun cs List.suffix_rfl hne)
  | notEqual _ => rfl
  | quoted _ _ | equal _ | comparison _ _ _ | semicolon _ | comma _ | openParen _ | closeParen _ =>
    simp at heq

end Token

open Token

/-- The first span of a text that starts with no blank starts with the text. -/
theorem Covers.start_eq {text : List Char} {first : Nat} {s : Span} {spans : List Span} {c : Char}
    {rest : List Char} (h : Covers text first (s :: spans)) (htext : text.drop first = c :: rest)
    (hc : Text.isBlank c = false) : s.start = first := by
  obtain ⟨⟨hfirst, -⟩, hblank, -, -⟩ := covers_cons_iff.1 h
  by_contra hne
  obtain ⟨k, hk⟩ : ∃ k, s.start - first = k + 1 := ⟨s.start - first - 1, by omega⟩
  have hmem : c ∈ s.gap text first := by
    rw [Span.gap, htext, hk, List.take_succ_cons]
    exact List.mem_cons_self
  rw [hblank c hmem] at hc
  cases hc

/-- Blanks that are put into none of the spans leave `!=` together. A word in front of it stops at
these two characters, so they must not be taken apart. -/
theorem Gaps.blanks_eq_nil_of_notEqual {text : List Char} {first : Nat} {spans : List Span}
    (h : Covers text first spans) (gaps : Gaps spans) {more : List Char}
    (htext : text.drop first = '!' :: '=' :: more) : gaps.blanks (first + 1) = [] := by
  cases spans with
  | nil =>
    have := covers_nil_iff.1 h '!' (by rw [htext]; exact List.mem_cons_self)
    exact absurd this (by decide)
  | cons s spans =>
    have hstart := h.start_eq htext (by decide)
    obtain ⟨⟨hfirst, hlength⟩, -, hoccupies, -⟩ := covers_cons_iff.1 h
    have hsplit := Span.drop_eq_append text hfirst
    rw [Span.gap, hstart, Nat.sub_self, List.take_zero, List.nil_append, htext] at hsplit
    have hwidth : s.width = 2 := by
      rw [← Span.length_chars hlength]
      exact hoccupies.length_eq_two hsplit.symm
    exact gaps.outside s List.mem_cons_self _ (by omega) (by rw [Span.stop]; omega)

/-- Where a word could stop in the text, it can stop in the text with the blanks. -/
theorem wordStop_spread {text : List Char} {first : Nat} {spans : List Span}
    (h : Covers text first spans) (gaps : Gaps spans) (last : Nat)
    (hstop : WordStop (text.drop first)) :
    WordStop (spread gaps.blanks first (text.drop first) ++ gaps.blanks last) := by
  have hblanks := gaps.isBlank
  generalize hrest : text.drop first = rest at hstop
  cases hstop with
  | endOfText =>
    rw [spread, List.nil_append, ← List.append_nil (gaps.blanks last)]
    exact wordStop_blanks_append (hblanks last) fun _ => .endOfText
  | blank hc =>
    rw [spread, List.append_assoc]
    exact wordStop_blanks_append (hblanks first) fun _ => .blank hc
  | sign hc =>
    rw [spread, List.append_assoc]
    exact wordStop_blanks_append (hblanks first) fun _ => .sign hc
  | notEqual =>
    -- the two characters are one token, so they are still together
    rw [spread, spread, gaps.blanks_eq_nil_of_notEqual h hrest, List.append_assoc]
    exact wordStop_blanks_append (hblanks first) fun _ => .notEqual

/-- An equals sign that comes first in the text with the blanks comes first in the text. A word that
ends in an exclamation mark has to know this. -/
theorem head?_spread {spans : List Span} (gaps : Gaps spans) {first last : Nat} {rest : List Char}
    (h : (spread gaps.blanks first rest ++ gaps.blanks last).head? = some '=') :
    rest.head? = some '=' := by
  cases rest with
  | nil =>
    rw [spread, List.nil_append, ← List.append_nil (gaps.blanks last)] at h
    cases (head?_blanks_append (gaps.isBlank last) h).2
  | cons c rest =>
    rw [spread, List.append_assoc] at h
    exact (head?_blanks_append (gaps.isBlank first) h).2

/-! ## The tokens move -/

/-- A text that the spans cover is laid out as their tokens once the blanks are in it, each token at
its new place. -/
theorem lays_spread {text : List Char} {first : Nat} {spans : List Span}
    (h : Covers text first spans) (gaps : Gaps spans) (last : Nat) :
    Lays (spreadStart gaps.blanks first)
      (spread gaps.blanks first (text.drop first) ++ gaps.blanks last)
      (spans.map fun s => s.placed.move gaps.shift) := by
  induction spans generalizing first with
  | nil =>
    have hblank := isBlank_of_mem_spread gaps.isBlank (covers_nil_iff.1 h) first
    exact .blanks (List.forall_mem_append.2 ⟨hblank, gaps.isBlank last⟩)
  | cons s spans ih =>
    obtain ⟨⟨hfirst, hlength⟩, hblank, hoccupies, hrest⟩ := covers_cons_iff.1 h
    have hgap := Span.length_gap hfirst hlength
    have hwidth := Span.length_chars hlength
    have hstop : s.start + (s.chars text).length = s.stop := by rw [hwidth, Span.stop]
    have hchars : spread gaps.blanks s.start (s.chars text) =
        gaps.blanks s.start ++ s.chars text :=
      spread_eq_append hoccupies.ne_nil fun p hp hlt =>
        gaps.outside s List.mem_cons_self p hp (hstop ▸ hlt)
    -- the blanks up to the token, the token as it was, and the rest of the text with its blanks
    have htext : spread gaps.blanks first (text.drop first) ++ gaps.blanks last =
        (spread gaps.blanks first (s.gap text first) ++ gaps.blanks s.start) ++ s.chars text ++
          (spread gaps.blanks s.stop (text.drop s.stop) ++ gaps.blanks last) := by
      rw [Span.drop_eq_append text hfirst, spread_append, spread_append, hgap, hchars,
        List.length_append, ← Nat.add_assoc, hgap, hstop]
      simp only [List.append_assoc]
    have hstart : spreadStart gaps.blanks first +
        (spread gaps.blanks first (s.gap text first) ++ gaps.blanks s.start).length =
          gaps.shift s.start := by
      rw [List.length_append, ← Nat.add_assoc, length_spread, hgap, Gaps.shift_eq]
    have hend : gaps.shift s.start + (s.chars text).length = spreadStart gaps.blanks s.stop := by
      have := length_spread gaps.blanks s.start (s.chars text)
      rwa [hchars, List.length_append, hstop, ← Nat.add_assoc, ← Gaps.shift_eq] at this
    -- the token is followed by something else now, which stops it all the same
    have hreads := hoccupies.of_rest (wordStop_spread hrest gaps.tail last)
      (head?_spread gaps.tail)
    have hlays : Lays (spreadStart gaps.blanks s.stop)
        (spread gaps.blanks s.stop (text.drop s.stop) ++ gaps.blanks last)
        (spans.map fun u => u.placed.move gaps.shift) := ih hrest gaps.tail
    have hspread := isBlank_of_mem_spread gaps.isBlank hblank first
    have hfront := List.forall_mem_append.2 ⟨hspread, gaps.isBlank s.start⟩
    rw [← hend, ← hstart] at hlays
    rw [htext, List.map_cons, Span.placed, PlacedToken.move, ← hstart]
    exact .token hfront hreads.reads hlays

/-- Blanks around the tokens of a text move the tokens, and change nothing else. -/
theorem lex_insert {text : String} {spans : List Span} (h : Covers text.toList 0 spans)
    (gaps : Gaps spans) :
    Token.lex (gaps.insert text) =
      .ok (spans.map (fun s => s.placed.move gaps.shift) ++
        [⟨.endOfInput, gaps.shift text.length⟩]) := by
  have hlays := lays_spread h gaps text.length
  rw [List.drop_zero] at hlays
  have hlength : spreadStart gaps.blanks 0 +
      (spread gaps.blanks 0 text.toList ++ gaps.blanks text.length).length =
        gaps.shift text.length := by
    rw [List.length_append, ← Nat.add_assoc, length_spread, Nat.zero_add, String.length_toList,
      Gaps.shift_eq]
  have hlex := Lexer.tokens_of_lays hlays
  rw [hlength] at hlex
  rw [Token.lex, Lexer.ofString, Gaps.insert, String.toList_ofList]
  exact hlex

end FilterQuery
