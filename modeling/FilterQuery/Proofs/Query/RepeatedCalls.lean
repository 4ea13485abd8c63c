import FilterQuery.Proofs.Query.Descent

/-!
# Asking a parser again

A parser keeps its place and its count after a call, also after one that has failed, and it can be
given any tokens, not only those of a text. Here it is followed over any number of calls.

* `Continues`: what a call leaves of a parser. It has read tokens from the front, none of them an
  end of input, and its count has not gone down; `continues_parse` is the step and
  `continues_after` the history.
* `Parser.cursor`: where a parser stands before a call, as an index into its first stream.
* `soundCalls_ofTokens`: every call is the reading by descent from that index, so the reading meets
  none of the ways to stop that are not an error, and at most one call finds a query.
-/

namespace FilterQuery.Parser

open Machine

/-! ## One call -/

/-- A refused token is left where it is, or it is the last one that was read. -/
theorem afterError_eq (e : SyntaxError) (t : PlacedToken) (ts : List PlacedToken) :
    afterError e t ts = t :: ts ∨ afterError e t ts = ts := by
  cases e <;> simp [afterError]

/-- The parser `q` is `p` after it has read some tokens; it never reads an end of input. -/
structure Continues (p q : Parser) : Prop where
  read : ∃ read, p.tokens = read ++ q.tokens ∧ ∀ t ∈ read, t.token ≠ .endOfInput
  terms_le : p.terms ≤ q.terms
  endOffset_eq : q.endOffset = p.endOffset
  limits_eq : q.limits = p.limits

theorem Continues.refl (p : Parser) : Continues p p :=
  ⟨⟨[], rfl, fun _ ht => absurd ht List.not_mem_nil⟩, Nat.le_refl _, rfl, rfl⟩

/-- What two calls have read is what the first one has read and behind it what the second one has.
-/
theorem Continues.trans {p q r : Parser} (h : Continues p q) (h' : Continues q r) :
    Continues p r := by
  obtain ⟨read, hread, hne⟩ := h.read
  obtain ⟨more, hmore, hne'⟩ := h'.read
  refine ⟨⟨read ++ more, ?_, List.forall_mem_append.2 ⟨hne, hne'⟩⟩,
    Nat.le_trans h.terms_le h'.terms_le, h'.endOffset_eq.trans h.endOffset_eq,
    h'.limits_eq.trans h.limits_eq⟩
  rw [hread, hmore, List.append_assoc]

/-- What one call leaves of a parser. A refused token may have been read, and it is no end of input.
-/
theorem continues_parse (p : Parser) : Continues p p.parse.2 := by
  obtain ⟨before, after, n, m, hsplit, hreach, -, -, hhalts⟩ :=
    exists_halts_run (m := .start) (Nat.zero_le p.limits.depth) p.endOffset p.terms p.tokens
  unfold parse
  generalize run p.limits p.endOffset .start p.terms p.tokens = r at hhalts
  cases hhalts with
  | finish | trailing _ _ | unfinished _ _ =>
    exact ⟨⟨before, hsplit, hreach.ne_endOfInput⟩, Nat.le_add_right _ _, rfl, rfl⟩
  | @refuse t ts e ht _ =>
    refine ⟨?_, Nat.le_add_right_of_le (Nat.le_add_right _ _), rfl, rfl⟩
    -- only a word that is no selector is read although it is refused
    rcases afterError_eq e t ts with heq | heq
    · exact ⟨before, by rw [heq]; exact hsplit, hreach.ne_endOfInput⟩
    · refine ⟨before ++ [t], by rw [heq, List.append_assoc]; exact hsplit, ?_⟩
      rw [List.forall_mem_append, List.forall_mem_singleton]
      exact ⟨hreach.ne_endOfInput, ht⟩

/-- A call that finds a query reads all tokens. It would have failed at any other token, and at an
end of input that is not the last one. -/
theorem tokens_of_parse_ok {p : Parser} {q : Query} (h : p.parse.1 = .ok q) :
    p.parse.2.tokens = [] := by
  obtain ⟨_, _, _, _, -, -, -, -, hhalts⟩ :=
    exists_halts_run (m := .start) (Nat.zero_le p.limits.depth) p.endOffset p.terms p.tokens
  unfold parse at h ⊢
  generalize run p.limits p.endOffset .start p.terms p.tokens = r at h hhalts
  cases hhalts with
  | finish => rfl
  | trailing _ _ | unfinished _ _ | refuse _ _ => cases h

theorem parse_of_tokens_eq_nil {p : Parser} (h : p.tokens = []) :
    p.parse.1 = .error (.unexpected "end of input" p.endOffset) := by
  unfold parse
  rw [h]
  rfl

/-! ## Any number of calls -/

/-- The parser after a number of calls. -/
def after (p : Parser) : Nat → Parser
  | 0 => p
  | k + 1 => (p.after k).parse.2

/-- What a call gives; the first one has the number zero. -/
def result (p : Parser) (k : Nat) : Except SyntaxError Query := (p.after k).parse.1

/-- Where the parser stands before a call: the index of the next token in the stream that it was
made with, and its count. -/
def cursor (p : Parser) (k : Nat) : Descent.Cursor :=
  ⟨p.tokens.length - (p.after k).tokens.length, (p.after k).terms⟩

/-- Later calls go on where earlier ones have left the parser. -/
theorem continues_after (p : Parser) {j k : Nat} (h : j ≤ k) :
    Continues (p.after j) (p.after k) := by
  induction h with
  | refl => exact .refl _
  | step _ ih => exact ih.trans (continues_parse _)

theorem continues_of_after (p : Parser) (k : Nat) : Continues p (p.after k) :=
  p.continues_after (Nat.zero_le k)

/-- The tokens before the cursor are those that have been read. So the cursor is an index into the
tokens, and no end of input is among those before it. -/
theorem tokens_after_eq_drop (p : Parser) (k : Nat) :
    (p.cursor k).index ≤ p.tokens.length ∧
      (p.after k).tokens = p.tokens.drop (p.cursor k).index ∧
      ∀ t ∈ p.tokens.take (p.cursor k).index, t.token ≠ .endOfInput := by
  obtain ⟨read, hread, hne⟩ := (p.continues_of_after k).read
  -- the index is the number of tokens that are gone
  have hindex : (p.cursor k).index = read.length := by
    show p.tokens.length - (p.after k).tokens.length = _
    rw [hread, List.length_append]
    omega
  rw [hindex, hread, List.drop_left, List.take_left, List.length_append]
  exact ⟨Nat.le_add_right _ _, rfl, hne⟩

theorem tokens_of_result_ok {p : Parser} {k : Nat} {q : Query} (h : p.result k = .ok q) :
    ∀ j, k < j → (p.after j).tokens = [] := by
  intro j hj
  obtain ⟨read, hread, -⟩ := (p.continues_after hj).read
  rw [show (p.after (k + 1)).tokens = [] from tokens_of_parse_ok h] at hread
  exact (List.append_eq_nil_iff.1 hread.symm).2

/-- After a call that finds a query, every other one finds the end of input. -/
theorem result_of_result_ok {p : Parser} {k : Nat} {q : Query} (h : p.result k = .ok q) :
    ∀ j, k < j → p.result j = .error (.unexpected "end of input" p.endOffset) := by
  intro j hj
  -- the end of input that is found keeps the offset it had at first
  rw [← (p.continues_of_after j).endOffset_eq]
  exact parse_of_tokens_eq_nil (tokens_of_result_ok h j hj)

/-- The cursor never stands behind an end of input. An end of input is looked at, but it is never
taken. -/
theorem index_le_of_endOfInput (p : Parser) (k : Nat) {j : Nat} {t : PlacedToken}
    (ht : p.stream[j]? = some t) (hend : t.token = .endOfInput) : (p.cursor k).index ≤ j := by
  obtain ⟨hle, -, hne⟩ := p.tokens_after_eq_drop k
  apply Nat.le_of_not_lt
  intro hlt
  have hmem : t ∈ p.tokens.take (p.cursor k).index := by
    rw [stream, List.getElem?_append_left (by omega), ← List.getElem?_take_of_lt hlt] at ht
    exact List.mem_of_getElem? ht
  exact hne t hmem hend

/-- A call that finds a query has met no end of input but the last token of the stream. -/
theorem ne_endOfInput_of_result_ok {p : Parser} {k : Nat} {q : Query} (h : p.result k = .ok q) :
    ∀ t ∈ p.tokens, t.token ≠ .endOfInput := by
  obtain ⟨-, hdrop, hne⟩ := p.tokens_after_eq_drop (k + 1)
  rw [tokens_of_result_ok h (k + 1) (Nat.lt_succ_self k)] at hdrop
  rw [← List.take_append_drop (p.cursor (k + 1)).index p.tokens, ← hdrop, List.append_nil]
  exact hne

/-- A call is the reading by descent from the cursor. The cursor behind the call is where the
reading has left it, whether the call has failed or not. -/
theorem descent_parse_cursor (p : Parser) (k : Nat) {rounds : Nat}
    (hrounds : p.stream.length ≤ rounds) :
    Descent.parse p.stream p.limits rounds (p.cursor k) =
      (Descent.answer (p.result k), p.cursor (k + 1)) := by
  obtain ⟨hle, hdrop, -⟩ := p.tokens_after_eq_drop k
  rw [length_stream] at hrounds
  have hcontinues := p.continues_of_after k
  have hrun : p.runFrom .start (p.cursor k).terms (p.cursor k).index =
      run (p.after k).limits (p.after k).endOffset .start (p.after k).terms (p.after k).tokens := by
    rw [runFrom, hcontinues.limits_eq, hcontinues.endOffset_eq, hdrop]
    rfl
  show Descent.parse p.stream p.limits rounds ⟨(p.cursor k).index, (p.cursor k).terms⟩ = _
  rw [Descent.parse_eq_run hle hrounds, hrun]
  rfl

/-- What is right about a call of a parser. -/
structure SoundCall (p : Parser) (k : Nat) : Prop where
  /-- The parser has left the tokens from its cursor on. -/
  stream_eq : (p.after k).stream = p.stream.drop (p.cursor k).index
  index_lt : (p.cursor k).index < p.stream.length
  index_le : (p.cursor k).index ≤ (p.cursor (k + 1)).index
  terms_le : (p.cursor k).terms ≤ (p.cursor (k + 1)).terms
  /-- The cursor stands at the first end of input or before it. -/
  index_le_end : ∀ (j : Nat) (t : PlacedToken), p.stream[j]? = some t → t.token = .endOfInput →
    (p.cursor k).index ≤ j
  /-- The reading by descent comes to its end with the result of the call, so nothing that it relies
  on is wrong at any point. -/
  read_eq : ∀ rounds, p.stream.length ≤ rounds →
    Descent.parse p.stream p.limits rounds (p.cursor k) =
      (Descent.answer (p.result k), p.cursor (k + 1))
  later_eq : ∀ q, p.result k = .ok q → ∀ j, k < j →
    p.result j = .error (.unexpected "end of input" p.endOffset)
  /-- An end of input before the last token makes the call fail. -/
  fails : ∀ (j : Nat) (t : PlacedToken), p.stream[j]? = some t → t.token = .endOfInput →
    j + 1 < p.stream.length → ∃ e, p.result k = .error e

theorem soundCall (p : Parser) (k : Nat) : SoundCall p k := by
  obtain ⟨hle, hdrop, -⟩ := p.tokens_after_eq_drop k
  have hcontinues : Continues (p.after k) (p.after (k + 1)) := p.continues_after (Nat.le_succ k)
  refine
    { stream_eq := ?_
      index_lt := by rw [length_stream]; omega
      index_le := ?_
      terms_le := hcontinues.terms_le
      index_le_end := fun j t ht hend => p.index_le_of_endOfInput k ht hend
      read_eq := fun rounds hrounds => p.descent_parse_cursor k hrounds
      later_eq := fun q hq => result_of_result_ok hq
      fails := ?_ }
  · rw [stream, stream, hdrop, List.drop_append_of_le_length hle,
      (p.continues_of_after k).endOffset_eq]
  · obtain ⟨read, hread, -⟩ := hcontinues.read
    have hlen : (p.after (k + 1)).tokens.length ≤ (p.after k).tokens.length := by
      rw [hread, List.length_append]
      omega
    show p.tokens.length - (p.after k).tokens.length ≤
      p.tokens.length - (p.after (k + 1)).tokens.length
    omega
  · intro j t ht hend hlt
    rw [length_stream] at hlt
    cases hresult : p.result k with
    | error e => exact ⟨e, rfl⟩
    -- had the call found a query, it would have read past that end of input
    | ok q =>
      have hmem : t ∈ p.tokens := by
        rw [stream, List.getElem?_append_left (by omega)] at ht
        exact List.mem_of_getElem? ht
      exact absurd hend (ne_endOfInput_of_result_ok hresult t hmem)

-- a word that is no selector is left behind, so the second call finds the query after it
example :
    (List.range 3).map (ofTokens [⟨.word ".", 0⟩, ⟨.word "a", 2⟩] {}).result =
      [.error (.invalidSelector "." 0), .ok (.present ⟨none, "a"⟩),
        .error (.unexpected "end of input" 3)] := by
  rfl

end FilterQuery.Parser
