import FilterQuery.Proofs.Token.Spelling

/-!
# Where tokens stand

A token starts where the lexer stands after the blanks and takes at least one character, so the
offsets of the tokens of a text increase strictly. The end of input is one of them, and the last:

* `position_lt_of_next`: what one token does to the position of the lexer.
* `tokens_induction`: from one token to all tokens of a text.
* `tokens_eq_concat_end`, `pairwise_offset_tokens`: what follows for them.
-/

namespace FilterQuery.Lexer

theorem position_le_skipBlanks (lx : Lexer) : lx.position ≤ lx.skipBlanks.position :=
  Nat.le_add_right _ _

/-- A token starts at or after the position of the lexer, and unless it is the end of input the
lexer has moved past its start. -/
theorem position_lt_of_next {lx after : Lexer} {t : PlacedToken} (h : lx.next = (.ok t, after)) :
    lx.position ≤ t.offset ∧ (t.token ≠ .endOfInput → t.offset < after.position) := by
  have hskip := lx.position_le_skipBlanks
  unfold next at h
  simp only at h
  cases hrest : lx.skipBlanks.rest with
  | nil =>
    simp only [hrest, Prod.mk.injEq, Except.ok.injEq] at h
    obtain ⟨rfl, -⟩ := h
    exact ⟨hskip, fun hne => absurd rfl hne⟩
  | cons c cs =>
    simp only [hrest] at h
    cases hscan : Token.scan c cs with
    | token t more =>
      simp only [hscan, Prod.mk.injEq, Except.ok.injEq] at h
      obtain ⟨rfl, rfl⟩ := h
      refine ⟨hskip, fun _ => ?_⟩
      simp only [advance]
      omega
    | strayEquals => simp [hscan] at h
    | unterminated => simp [hscan] at h

/-- The tokens of a text are the end of input alone, or a token and the tokens found behind it. So
what holds of the one and is handed on by the other holds of all tokens of every text. -/
@[elab_as_elim]
theorem tokens_induction {motive : Lexer → List PlacedToken → Prop}
    (last : ∀ {lx after : Lexer} {t : PlacedToken}, lx.next = (.ok t, after) →
      t.token = .endOfInput → motive lx [t])
    (more : ∀ {lx after : Lexer} {t : PlacedToken} {ts : List PlacedToken},
      lx.next = (.ok t, after) → t.token ≠ .endOfInput → motive after ts → motive lx (t :: ts))
    {lx : Lexer} {ts : List PlacedToken} (h : lx.tokens = .ok ts) : motive lx ts := by
  fun_induction tokens lx generalizing ts with
  | case1 => cases h
  | case2 lx t after hnext hend =>
    cases h
    exact last hnext hend
  | case3 => cases h
  | case4 lx t after hnext hend hlt rest hrest ih =>
    cases h
    exact more hnext hend (ih hrest)

/-- The end of input is the last token, and no other token is one. -/
theorem tokens_eq_concat_end {lx : Lexer} {ts : List PlacedToken} (h : lx.tokens = .ok ts) :
    ∃ body endOffset, ts = body ++ [⟨.endOfInput, endOffset⟩] ∧
      ∀ t ∈ body, t.token ≠ .endOfInput := by
  refine tokens_induction (fun {_ _ t} _ hend => ?_) (fun _ hne ih => ?_) h
  · exact ⟨[], t.offset, by rw [List.nil_append, ← hend], by simp⟩
  · obtain ⟨body, endOffset, rfl, hbody⟩ := ih
    exact ⟨_ :: body, endOffset, rfl, List.forall_mem_cons.2 ⟨hne, hbody⟩⟩

/-- The tokens stand in the order in which they are listed, each at an offset of its own. So an
offset determines the token, which is how errors point at tokens. -/
theorem pairwise_offset_tokens {lx : Lexer} {ts : List PlacedToken} (h : lx.tokens = .ok ts) :
    (∀ t ∈ ts, lx.position ≤ t.offset) ∧ ts.Pairwise (fun t u => t.offset < u.offset) := by
  refine tokens_induction (fun {_ _ t} hnext _ => ?_) (fun {_ _ t ts} hnext hne ih => ?_) h
  · refine ⟨?_, List.pairwise_singleton _ t⟩
    rw [List.forall_mem_singleton]
    exact (position_lt_of_next hnext).1
  · obtain ⟨hstart, hmoved⟩ := position_lt_of_next hnext
    obtain ⟨hlater, hpairs⟩ := ih
    -- every later token stands behind the lexer, which has moved past this one
    have hbehind (u : PlacedToken) (hu : u ∈ ts) : t.offset < u.offset :=
      Nat.lt_of_lt_of_le (hmoved hne) (hlater u hu)
    refine ⟨List.forall_mem_cons.2 ⟨hstart, fun u hu => ?_⟩, hpairs.cons hbehind⟩
    exact Nat.le_trans hstart (Nat.le_of_lt (hbehind u hu))

/-- No two tokens of a text have the same offset. -/
theorem offset_ne_of_tokens {lx : Lexer} {before after : List PlacedToken} {t : PlacedToken}
    (h : lx.tokens = .ok (before ++ t :: after)) : ∀ u ∈ before ++ after, u.offset ≠ t.offset := by
  have hpairs := (pairwise_offset_tokens h).2
  rw [List.pairwise_append, List.pairwise_cons] at hpairs
  obtain ⟨-, ⟨hafter, -⟩, hbefore⟩ := hpairs
  intro u hu
  rcases List.mem_append.1 hu with hu | hu
  · exact Nat.ne_of_lt (hbefore u hu t List.mem_cons_self)
  · exact Nat.ne_of_gt (hafter u hu)

end FilterQuery.Lexer
