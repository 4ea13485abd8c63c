import FilterQuery.Proofs.Token.Layout

/-!
# Asking a lexer again

A lexer keeps its place after a call, also after a fault and at the end of the text, and it can be
asked any number of times. One call does one of four things (`Answers`). The characters read and the
characters left make up the whole text before and after it (`extent_next`), so the position stays
within the text and only grows.

Two of the four stop behind the blanks and leave a lexer that no call moves any further: at the end
of the text, and on an equals sign that starts no operator (`result_of_next_eq_skipBlanks`). A quote
that is never closed leaves nothing behind it, so the end of the text comes next. The fourth one
takes a token and at least one character, so the calls come to one of the other three after no more
tokens than there are characters (`exists_exhausts`).
-/

namespace FilterQuery.Lexer

/-! ## One call -/

/-- What a call for the next token does, behind the blanks that it skips first. -/
inductive Answers (lx : Lexer) : Except SyntaxError PlacedToken × Lexer → Prop where
  | endOfInput (hrest : lx.skipBlanks.rest = []) :
      Answers lx (.ok ⟨.endOfInput, lx.skipBlanks.position⟩, lx.skipBlanks)
  | token {t : Token} {n : Nat} (ht : t ≠ .endOfInput) (hpos : 0 < n)
      (hn : n ≤ lx.skipBlanks.rest.length) :
      Answers lx (.ok ⟨t, lx.skipBlanks.position⟩, lx.skipBlanks.advance n)
  | strayEquals : Answers lx (.error (.unexpected "'='" lx.skipBlanks.position), lx.skipBlanks)
  | unterminated :
      Answers lx (.error (.unterminatedText lx.skipBlanks.position),
        lx.skipBlanks.advance lx.skipBlanks.rest.length)

theorem answers_next (lx : Lexer) : lx.Answers lx.next := by
  unfold next
  simp only
  cases hrest : lx.skipBlanks.rest with
  | nil => exact .endOfInput hrest
  | cons c cs =>
    have hsound := Token.sound_scan c cs
    simp only
    cases hscan : Token.scan c cs with
    | token t more =>
      rw [hscan] at hsound
      have hmore : more ≤ cs.length := hsound
      have ht : t ≠ .endOfInput := by
        intro ht
        rw [ht] at hscan
        exact Token.scan_ne_endOfInput _ _ _ hscan
      refine .token ht (by omega) ?_
      rw [hrest, List.length_cons]
      omega
    | strayEquals => exact .strayEquals
    | unterminated =>
      rw [← hrest]
      exact .unterminated

/-- Behind the blanks there are none to skip. -/
theorem skipBlanks_skipBlanks (lx : Lexer) : lx.skipBlanks.skipBlanks = lx.skipBlanks := by
  have htake (cs : List Char) :
      (cs.drop (cs.takeWhile Text.isBlank).length).takeWhile Text.isBlank = [] := by
    induction cs with
    | nil => rfl
    | cons c cs ih => by_cases hc : Text.isBlank c = true <;> simp [hc, ih]
  show lx.skipBlanks.advance (lx.skipBlanks.rest.takeWhile Text.isBlank).length = _
  rw [show lx.skipBlanks.rest.takeWhile Text.isBlank = [] from htake lx.rest]
  rfl

/-- So it makes no difference to a call whether the blanks have been skipped before. A call that
stops behind the blanks therefore repeats itself. -/
theorem next_skipBlanks (lx : Lexer) : lx.skipBlanks.next = lx.next := by
  unfold next
  rw [skipBlanks_skipBlanks]

/-- The length of the text that the lexer goes through. -/
def extent (lx : Lexer) : Nat := lx.position + lx.rest.length

theorem extent_advance {lx : Lexer} {n : Nat} (h : n ≤ lx.rest.length) :
    (lx.advance n).extent = lx.extent := by
  show lx.position + n + (lx.rest.drop n).length = lx.position + lx.rest.length
  rw [List.length_drop]
  omega

theorem extent_skipBlanks (lx : Lexer) : lx.skipBlanks.extent = lx.extent :=
  extent_advance (List.takeWhile_sublist _).length_le

/-- A call stays in the text and does not move back in it. Both are read off the four things that a
call can do. -/
theorem extent_next (lx : Lexer) :
    lx.next.2.extent = lx.extent ∧ lx.position ≤ lx.next.2.position := by
  have hskip := lx.position_le_skipBlanks
  have hanswers := lx.answers_next
  -- by what the call does behind the blanks
  rw [← extent_skipBlanks lx]
  generalize lx.next = answer at hanswers ⊢
  cases hanswers with
  | endOfInput => exact ⟨rfl, hskip⟩
  | token _ _ hn => exact ⟨extent_advance hn, Nat.le_add_right_of_le hskip⟩
  | strayEquals => exact ⟨rfl, hskip⟩
  | unterminated => exact ⟨extent_advance (Nat.le_refl _), Nat.le_add_right_of_le hskip⟩

/-- Where nothing is left, a call finds the end of the text and moves nothing. -/
theorem next_of_rest_eq_nil {lx : Lexer} (h : lx.rest = []) :
    lx.next = (.ok ⟨.endOfInput, lx.extent⟩, lx) := by
  obtain ⟨rest, position⟩ := lx
  cases h
  exact next_blanks (List.forall_mem_nil _) position

/-! ## Any number of calls -/

/-- The lexer after a number of calls. -/
def after (lx : Lexer) : Nat → Lexer
  | 0 => lx
  | k + 1 => (lx.after k).next.2

/-- What a call gives; the first one has the number zero. -/
def result (lx : Lexer) (k : Nat) : Except SyntaxError PlacedToken := (lx.after k).next.1

theorem after_add (lx : Lexer) (j k : Nat) : lx.after (j + k) = (lx.after j).after k := by
  induction k with
  | zero => rfl
  | succ k ih => exact congrArg (fun lx => lx.next.2) ih

theorem result_add (lx : Lexer) (j k : Nat) : lx.result (j + k) = (lx.after j).result k := by
  unfold result
  rw [after_add]

/-- All calls are about the same text. -/
theorem extent_after (lx : Lexer) (k : Nat) : (lx.after k).extent = lx.extent := by
  induction k with
  | zero => rfl
  | succ k ih => exact (extent_next _).1.trans ih

theorem position_after_le (lx : Lexer) (k : Nat) : (lx.after k).position ≤ lx.extent := by
  rw [← lx.extent_after k]
  exact Nat.le_add_right _ _

/-- If a call stops behind the blanks, all calls after it stop there with the same answer. -/
theorem result_of_next_eq_skipBlanks {lx : Lexer} {j : Nat}
    (h : (lx.after j).next.2 = (lx.after j).skipBlanks) {k : Nat} (hk : j ≤ k) :
    lx.result k = lx.result j := by
  -- the lexer behind the blanks is one that a call does not move
  have hfixed : ∀ n, lx.after (j + 1 + n) = (lx.after j).skipBlanks := by
    intro n
    induction n with
    | zero => exact h
    | succ n ih =>
      show (lx.after (j + 1 + n)).next.2 = _
      rw [ih, next_skipBlanks, h]
  rcases Nat.eq_or_lt_of_le hk with rfl | hlt
  · rfl
  · show (lx.after k).next.1 = (lx.after j).next.1
    rw [show k = j + 1 + (k - (j + 1)) by omega, hfixed, next_skipBlanks]

theorem answers_after (lx : Lexer) (k : Nat) :
    (lx.after k).Answers (lx.result k, lx.after (k + 1)) :=
  answers_next _

/-- A token stands where the lexer was or behind it, and before where the lexer is then. -/
theorem position_of_result_token {lx : Lexer} {k : Nat} {t : PlacedToken}
    (h : lx.result k = .ok t) (ht : t.token ≠ .endOfInput) :
    (lx.after k).position ≤ t.offset ∧ t.offset < (lx.after (k + 1)).position := by
  have hnext : (lx.after k).next = (.ok t, lx.after (k + 1)) := Prod.ext h rfl
  exact ⟨(position_lt_of_next hnext).1, (position_lt_of_next hnext).2 ht⟩

/-- Once the end of the text has been found, every call finds it, behind the last character. The
position does not move any more, so it is the same token each time. -/
theorem result_of_result_end {lx : Lexer} {k : Nat} {t : PlacedToken} (h : lx.result k = .ok t)
    (ht : t.token = .endOfInput) {j : Nat} (hj : k ≤ j) :
    lx.result j = .ok ⟨.endOfInput, lx.extent⟩ := by
  have hanswers := lx.answers_after k
  rw [h] at hanswers
  generalize hthere : lx.after (k + 1) = there at hanswers
  cases hanswers with
  | token ht' => exact absurd ht ht'
  | endOfInput hrest =>
    -- no characters are left, so the position is the end of the text
    have hextent := ((lx.after k).extent_skipBlanks).trans (lx.extent_after k)
    rw [extent, hrest, List.length_nil, Nat.add_zero] at hextent
    rw [result_of_next_eq_skipBlanks hthere hj, h, hextent]

/-- A stray equals sign is found again by every later call: the lexer never gets past it. -/
theorem result_of_result_unexpected {lx : Lexer} {k : Nat} {found : String} {p : Nat}
    (h : lx.result k = .error (.unexpected found p)) {j : Nat} (hj : k ≤ j) :
    lx.result j = .error (.unexpected found p) := by
  have hanswers := lx.answers_after k
  rw [h] at hanswers
  generalize hthere : lx.after (k + 1) = there at hanswers
  cases hanswers with
  | strayEquals => rw [result_of_next_eq_skipBlanks hthere hj, h]

/-- Behind a quote that is never closed, every later call finds the end of the text. -/
theorem result_of_result_unterminated {lx : Lexer} {k : Nat} {p : Nat}
    (h : lx.result k = .error (.unterminatedText p)) {j : Nat} (hj : k < j) :
    lx.result j = .ok ⟨.endOfInput, lx.extent⟩ := by
  have hanswers := lx.answers_after k
  rw [h] at hanswers
  generalize hthere : lx.after (k + 1) = there at hanswers
  cases hanswers with
  | unterminated =>
    -- everything behind the quote has been read
    have hrest : (lx.after (k + 1)).rest = [] := by
      rw [hthere]
      exact List.drop_length
    have hend : lx.result (k + 1) = .ok ⟨.endOfInput, (lx.after (k + 1)).extent⟩ := by
      rw [result, next_of_rest_eq_nil hrest]
    exact result_of_result_end hend rfl hj

/-- A call fails because of a stray equals sign or an open quote, and for no other reason. -/
theorem fault_of_result {lx : Lexer} {k : Nat} {e : SyntaxError} (h : lx.result k = .error e) :
    (∃ found p, e = .unexpected found p) ∨ ∃ p, e = .unterminatedText p := by
  have hanswers := lx.answers_after k
  rw [h] at hanswers
  generalize lx.after (k + 1) = there at hanswers
  cases hanswers with
  | strayEquals => exact .inl ⟨_, _, rfl⟩
  | unterminated => exact .inr ⟨_, rfl⟩

/-! ## All tokens -/

/-- The results of the calls are that of the first one and those of the lexer that it leaves. With
it, the split into tokens is unrolled by one call. -/
theorem mapM_result (lx : Lexer) (n : Nat) :
    (List.range (n + 1)).mapM lx.result = (do
      let t ← lx.result 0
      let ts ← (List.range n).mapM (lx.after 1).result
      return t :: ts) := by
  have hshift : lx.result ∘ Nat.succ = (lx.after 1).result := by
    funext k
    show lx.result (k + 1) = _
    rw [Nat.add_comm, result_add]
  rw [List.range_succ_eq_map, List.mapM_cons, List.mapM_map, hshift]

/-- The call `n` is the last one that the split into tokens makes: those before it find tokens, and
it finds none. -/
structure Exhausts (lx : Lexer) (n : Nat) : Prop where
  tokens : ∀ k < n, ∃ t, lx.result k = .ok t ∧ t.token ≠ .endOfInput
  last : ∀ t, lx.result n = .ok t → t.token = .endOfInput
  tokens_eq : lx.tokens = (List.range (n + 1)).mapM lx.result

theorem exhausts_zero {lx : Lexer} (hlast : ∀ t, lx.result 0 = .ok t → t.token = .endOfInput)
    (htokens : lx.tokens = (lx.result 0).map fun t => [t]) : Exhausts lx 0 := by
  refine ⟨fun k hk => absurd hk (Nat.not_lt_zero k), hlast, ?_⟩
  rw [htokens, mapM_result]
  cases lx.result 0 <;> rfl

/-- A first call that finds a token is one call more. -/
theorem Exhausts.cons {lx : Lexer} {t : PlacedToken} {n : Nat} (hresult : lx.result 0 = .ok t)
    (ht : t.token ≠ .endOfInput) (h : Exhausts (lx.after 1) n) : Exhausts lx (n + 1) := by
  have hnext : lx.next = (.ok t, lx.after 1) := Prod.ext hresult rfl
  refine ⟨fun k hk => ?_, fun u hu => ?_, ?_⟩
  · cases k with
    | zero => exact ⟨t, hresult, ht⟩
    | succ k =>
      rw [Nat.add_comm, result_add]
      exact h.tokens k (by omega)
  · rw [Nat.add_comm, result_add] at hu
    exact h.last u hu
  · rw [lx.tokens_eq, hnext, mapM_result, hresult]
    simp only [ht, if_false, h.tokens_eq]
    generalize (List.range (n + 1)).mapM (lx.after 1).result = rest
    cases rest <;> rfl

/-- A lexer runs out of tokens after no more of them than there are characters. -/
theorem exists_exhausts (lx : Lexer) : ∃ n ≤ lx.rest.length, Exhausts lx n := by
  -- on the characters that are left, of which a token takes at least one
  induction hlength : lx.rest.length using Nat.strongRecOn generalizing lx with
  | ind length ih =>
    have htokens := lx.tokens_eq
    cases hresult : lx.result 0 with
    | error e =>
      have hnext : lx.next = (.error e, lx.after 1) := Prod.ext hresult rfl
      rw [hnext] at htokens
      refine ⟨0, Nat.zero_le _, exhausts_zero (fun t ht => ?_) ?_⟩
      · rw [hresult] at ht
        cases ht
      · rw [htokens, hresult]
        rfl
    | ok t =>
      have hnext : lx.next = (.ok t, lx.after 1) := Prod.ext hresult rfl
      by_cases ht : t.token = .endOfInput
      · simp only [hnext, ht, if_true] at htokens
        refine ⟨0, Nat.zero_le _, exhausts_zero (fun u hu => ?_) ?_⟩
        · rw [hresult] at hu
          cases hu
          exact ht
        · rw [htokens, hresult]
          rfl
      · have hlt := length_rest_lt_of_next hnext ht
        obtain ⟨n, hn, hexhausts⟩ := ih _ (by omega) (lx.after 1) rfl
        exact ⟨n + 1, by omega, hexhausts.cons hresult ht⟩

/-- What is right about a call of a lexer. -/
structure SoundCall (lx : Lexer) (k : Nat) : Prop where
  position_le : (lx.after k).position ≤ lx.extent
  position_mono : (lx.after k).position ≤ (lx.after (k + 1)).position
  /-- A token stands at the position or after it, and the lexer moves past its start. -/
  token : ∀ t, lx.result k = .ok t → t.token ≠ .endOfInput →
    (lx.after k).position ≤ t.offset ∧ t.offset < (lx.after (k + 1)).position
  endOfInput : ∀ t, lx.result k = .ok t → t.token = .endOfInput →
    ∀ j, k ≤ j → lx.result j = .ok ⟨.endOfInput, lx.extent⟩
  unexpected : ∀ found p, lx.result k = .error (.unexpected found p) →
    ∀ j, k ≤ j → lx.result j = .error (.unexpected found p)
  unterminated : ∀ p, lx.result k = .error (.unterminatedText p) →
    ∀ j, k < j → lx.result j = .ok ⟨.endOfInput, lx.extent⟩
  /-- There are no other faults. -/
  fault : ∀ e, lx.result k = .error e →
    (∃ found p, e = .unexpected found p) ∨ ∃ p, e = .unterminatedText p

theorem soundCall (lx : Lexer) (k : Nat) : SoundCall lx k where
  position_le := position_after_le lx k
  position_mono := (extent_next (lx.after k)).2
  token := fun _ => position_of_result_token
  endOfInput := fun _ ht hend _ => result_of_result_end ht hend
  unexpected := fun _ _ h _ => result_of_result_unexpected h
  unterminated := fun _ h _ => result_of_result_unterminated h
  fault := fun _ => fault_of_result

/-- **A lexer over any number of calls.** Every call on the lexer of a text is sound, and one of
them, after at most as many tokens as the text has characters, is the last that the split into tokens
makes. -/
theorem soundCalls_ofString (text : String) :
    (ofString text).extent = text.length ∧ (∀ k, SoundCall (ofString text) k) ∧
      ∃ n ≤ text.length, Exhausts (ofString text) n := by
  have hlength : text.toList.length = text.length := String.length_toList
  refine ⟨?_, soundCall _, ?_⟩
  · show 0 + text.toList.length = text.length
    omega
  · rw [← hlength]
    exact exists_exhausts (ofString text)

-- behind a quote that is never closed stands the end of the text
example : (List.range 4).map (ofString "a 'b").result =
    [.ok ⟨.word "a", 0⟩, .error (.unterminatedText 2), .ok ⟨.endOfInput, 4⟩,
      .ok ⟨.endOfInput, 4⟩] := by
  rfl

end FilterQuery.Lexer
