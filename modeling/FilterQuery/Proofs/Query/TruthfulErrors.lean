import FilterQuery.Proofs.Query.Tally
import FilterQuery.Proofs.Token.Layout

/-!
# Errors say what is the case

An error names a position and, for some kinds, a token, a word, an operator or a limit. Whatever the
text and the limits are, what it says is true of the text.

* `Token.Fault` (from the layout of texts) says when an error about characters is true.
* `SyntaxError.Explains` says when an error about a token is true, by the tokens before it and after
  it. An error about an open parenthesis is found at the end of the text; it points back, so it is
  true if matching the parentheses of the whole text leaves this one open.

An error arises where the machine refuses a token, or where it ends. Both are settled by what the
machine keeps of the tokens before (`explains_of_refuses`, `exists_explains_of_finish`).
-/

namespace FilterQuery

open Grammar

/-- The error is true of the token `t`, which stands between the tokens `before` and `after`. -/
inductive SyntaxError.Explains (limits : Limits) (before : List PlacedToken) (t : PlacedToken)
    (after : List PlacedToken) : SyntaxError → Prop where
  | unexpected : Explains limits before t after (.unexpected t.token.describe t.offset)
  /-- No later parenthesis closes this one. -/
  | unclosedGroup (ht : t.token = .openParen)
      (hopen : t.offset ∈ openParens (before ++ t :: after)) :
      Explains limits before t after (.unclosedGroup t.offset)
  /-- An operator that comes first, or follows an opening parenthesis or a separator. -/
  | emptySelector (ht : (∃ op, t.token = .equality op) ∨ ∃ name, t.token = .comparison name)
      (hbefore : ∀ u ∈ before.getLast?,
        u.token = .openParen ∨ u.token = .comma ∨ u.token = .semicolon) :
      Explains limits before t after (.emptySelector t.offset)
  | invalidSelector {w : String} (ht : t.token = .word w) (hw : Selector.ofPath? w = none) :
      Explains limits before t after (.invalidSelector w t.offset)
  /-- A parenthesis right behind the operator that is named. -/
  | listInComparison {name : String} (ht : t.token = .openParen)
      (hbefore : ∃ u ∈ before.getLast?, u.token = .comparison name) :
      Explains limits before t after (.listInComparison name t.offset)
  /-- As many groups are open as the limit admits, and no list. -/
  | nestingTooDeep (ht : t.token = .openParen)
      (hgroups : (tally (before.map PlacedToken.token)).groups = limits.depth)
      (hparens : (openParens before).length = limits.depth) :
      Explains limits before t after (.nestingTooDeep limits.depth t.offset)
  /-- A word that starts a constraint, behind as many constraints as the limit admits. -/
  | tooManyTerms {w : String} (ht : t.token = .word w)
      (hstart : (tally (before.map PlacedToken.token)).atOperand = true)
      (hterms : (tally (before.map PlacedToken.token)).terms = limits.terms) :
      Explains limits before t after (.tooManyTerms limits.terms t.offset)

namespace Grammar

/-- A parenthesis that is open behind some tokens was open before them or is one of them. -/
theorem exists_of_mem_foldl_matchParen {ts : List PlacedToken} {opened : List Nat} {p : Nat}
    (h : p ∈ ts.foldl matchParen opened) :
    p ∈ opened ∨ ∃ t ∈ ts, t.token = .openParen ∧ t.offset = p := by
  induction ts generalizing opened with
  | nil => exact .inl h
  | cons t ts ih =>
    rcases ih h with hp | ⟨u, hu, hp⟩
    · unfold matchParen at hp
      split at hp
      · next ht =>
        rcases List.mem_cons.1 hp with hp | hp
        · exact .inr ⟨t, List.mem_cons_self, ht, hp.symm⟩
        · exact .inl hp
      -- a closing parenthesis takes one away and adds none
      · exact .inl (List.mem_of_mem_tail hp)
      · exact .inl hp
    · exact .inr ⟨u, List.mem_cons_of_mem t hu, hp⟩

/-- A parenthesis that is open is one of the tokens. So an error that points at an offset points at
a token. -/
theorem exists_of_mem_openParens {ts : List PlacedToken} {p : Nat} (h : p ∈ openParens ts) :
    ∃ t ∈ ts, t.token = .openParen ∧ t.offset = p := by
  rcases exists_of_mem_foldl_matchParen h with hp | ht
  · cases hp
  · exact ht

end Grammar

namespace Machine

/-! ## Where the machine refuses a token -/

/-- Where the value of a comparison has to come, its operator is the token right before. -/
theorem Reaches.getLast?_comparison {depth n : Nat} {ts : List PlacedToken} {s : Selector}
    {op : Comparison} {level : Level} {outer : List (Nat × Level)}
    (h : Reaches depth start ts n ⟨.scalar s op, level, outer⟩) :
    ∃ u ∈ ts.getLast?, u.token = .comparison op.name := by
  obtain ⟨us, vs, ws, hts, -, -, hws⟩ := spells_start.reaches h
  -- the mode is a record of a word and the operator behind it
  cases hws with
  | @scalar w _ name _ =>
    rw [Comparison.name_ofName]
    have hlast : (ts.map PlacedToken.token).getLast? = some (.comparison name) := by
      rw [← List.nil_append (ts.map _), hts, List.getLast?_append]
      rfl
    rw [List.getLast?_map] at hlast
    exact Option.map_eq_some_iff.1 hlast

/-- An error at a refused token is true of it. What the errors about limits count is what the scans
count, since the machine keeps the same. -/
theorem explains_of_refuses {limits : Limits} {n : Nat} {m : Machine} {before after : List PlacedToken}
    {t : PlacedToken} {e : SyntaxError} (hreach : Reaches limits.depth start before n m)
    (hterms : n ≤ limits.terms) (hdepth : m.outer.length ≤ limits.depth)
    (h : Refuses limits (n + (m.startsTerm t).toNat) t m e) : e.Explains limits before t after := by
  have htally := tally_of_reaches hreach
  have hparens := openParens_of_reaches hreach
  cases h with
  -- an operand has to come here, so no list is open and all parentheses are groups
  | nestingTooDeep ht hfull =>
    simp only at hdepth
    have hlength : (Grammar.openParens before).length = limits.depth := by
      rw [hparens]
      simp only [Machine.openParens, Mode.list?, Option.toList, List.nil_append, List.length_map]
      omega
    refine .nestingTooDeep ht ?_ hlength
    rw [htally]
    simp only [tally]
    omega
  | tooManyTerms ht hfull =>
    refine .tooManyTerms ht (by rw [htally]; rfl) ?_
    rw [htally]
    simp only [startsTerm, ht, Bool.toNat_true] at hfull
    simp only [tally]
    omega
  | invalidSelector ht hs => exact .invalidSelector ht hs
  | emptySelector ht =>
    have hoperand : (Grammar.tally (before.map PlacedToken.token)).atOperand = true := by
      rw [htally]
      rfl
    refine .emptySelector ht fun u hu => of_atOperand_tally hoperand u.token ?_
    rw [List.getLast?_map]
    exact Option.mem_map_of_mem _ hu
  | listInComparison ht => exact .listInComparison ht hreach.getLast?_comparison
  | unexpected _ => exact .unexpected

/-! ## Where the machine ends -/

/-- An end that comes too early is unexpected, or a parenthesis is open. The parenthesis may belong
to a list or to a group; the machine keeps both. -/
theorem unexpected_or_mem_of_finish {m : Machine} {endOffset : Nat} {e : SyntaxError}
    (h : m.finish endOffset = .error e) :
    e = unexpected ⟨.endOfInput, endOffset⟩ ∨ ∃ p ∈ m.openParens, e = .unclosedGroup p := by
  obtain ⟨mode, level, outer⟩ := m
  have houter {q : Query} (h : finishComplete ⟨mode, level, outer⟩ q = .error e) :
      ∃ p ∈ outer.map Prod.fst, e = .unclosedGroup p := by
    unfold finishComplete at h
    split at h
    · cases h
    · next opened _ _ hopen =>
      cases h
      simp only at hopen
      rw [hopen]
      exact ⟨opened, List.mem_cons_self, rfl⟩
  cases mode with
  | selector s => exact .inr (houter h)
  | complete q => exact .inr (houter h)
  | items s op opened items =>
    cases h
    exact .inr ⟨opened, List.mem_cons_self, rfl⟩
  | _ =>
    cases h
    exact .inl rfl

/-- The end of input opens and closes nothing. -/
theorem openParens_concat_end (ts : List PlacedToken) (endOffset : Nat) :
    Grammar.openParens (ts ++ [⟨.endOfInput, endOffset⟩]) = Grammar.openParens ts := by
  rw [Grammar.openParens, List.foldl_append]
  rfl

/-- An error at the end is true of the end of input, or of the parenthesis that it points back to.
-/
theorem exists_explains_of_finish {limits : Limits} {n endOffset : Nat} {m : Machine}
    {ts : List PlacedToken} {e : SyntaxError} (hreach : Reaches limits.depth start ts n m)
    (h : m.finish endOffset = .error e) :
    ∃ before t after, ts ++ [⟨.endOfInput, endOffset⟩] = before ++ t :: after ∧
      e.Explains limits before t after := by
  rcases unexpected_or_mem_of_finish h with rfl | ⟨p, hp, rfl⟩
  · exact ⟨ts, ⟨.endOfInput, endOffset⟩, [], rfl, .unexpected⟩
  · rw [← openParens_of_reaches hreach] at hp
    obtain ⟨t, hts, ht, rfl⟩ := exists_of_mem_openParens hp
    -- the parenthesis is open in the whole text, not only up to where the machine has come
    obtain ⟨before, after, rfl⟩ := List.append_of_mem hts
    rw [← openParens_concat_end _ endOffset, List.append_assoc, List.cons_append] at hp
    exact ⟨before, t, _, List.append_assoc _ _ _, .unclosedGroup ht hp⟩

end Machine

/-! ## Texts -/

namespace Query

/-- Every error of a run is true of one of the tokens, the closing end of input among them. -/
theorem exists_explains_of_run {limits : Limits} {endOffset : Nat} {body : List PlacedToken}
    {e : SyntaxError} (hbody : ∀ t ∈ body, t.token ≠ .endOfInput)
    (h : (Parser.run limits endOffset .start 0 body).1 = .error e) :
    ∃ before t after, body ++ [⟨.endOfInput, endOffset⟩] = before ++ t :: after ∧
      e.Explains limits before t after := by
  have hroom : Machine.start.outer.length ≤ limits.depth := Nat.zero_le _
  obtain ⟨before, after, n, m, rfl, hreach, hterms, hdepth, hhalts⟩ :=
    Parser.exists_halts_run hroom endOffset 0 body
  rw [Nat.zero_add] at hterms hhalts
  generalize Parser.run limits endOffset .start 0 (before ++ after) = r at h hhalts
  cases hhalts with
  | finish =>
    rw [List.append_nil]
    exact Machine.exists_explains_of_finish hreach h
  | @trailing t _ _ ht _ | @unfinished t _ _ ht _ => exact absurd ht (hbody t (by simp))
  | @refuse t ts _ _ hstep =>
    cases h
    refine ⟨before, t, ts ++ [⟨.endOfInput, endOffset⟩], by simp, ?_⟩
    exact Machine.explains_of_refuses hreach (by omega) hdepth (Machine.refuses_of_step hstep)

/-- **Errors are true.** If a text is not read as a query within the limits, the error points into
the text or at its end. It is a fault of the characters, which stands where a token had to start,
or it is true of the token that it points at, which is the only one with this offset. -/
theorem explains_of_parse_eq_error {text : String} {limits : Limits} {e : SyntaxError}
    (h : parse text limits = .error e) :
    e.position ≤ text.length ∧
    ((∃ before blanks rest ts, text.toList = before ++ (blanks ++ rest) ∧
        Lexer.LaysBefore (blanks ++ rest) before ts ∧ (∀ c ∈ blanks, Text.isBlank c = true) ∧
        e.position = (before ++ blanks).length ∧ Token.lex text = .error e ∧ Token.Fault rest e) ∨
      ∃ before t after, Token.lex text = .ok (before ++ t :: after) ∧ t.offset = e.position ∧
        (∀ u ∈ before ++ after, u.offset ≠ e.position) ∧ e.Explains limits before t after) := by
  unfold parse at h
  split at h
  · next tokens hlex =>
    obtain ⟨body, rfl, hlays⟩ := Token.exists_lays_of_lex hlex
    rw [Parser.parse_ofTokens] at h
    obtain ⟨before, t, after, htokens, hexplains⟩ :=
      exists_explains_of_run (Lexer.ne_endOfInput_of_lays hlays) h
    rw [htokens] at hlex
    have hposition : t.offset = e.position := by
      cases hexplains <;> rfl
    refine ⟨?_, .inr ⟨before, t, after, hlex, hposition, ?_, hexplains⟩⟩
    · -- every token stands in the text, and the end of input stands behind it
      have ht : t ∈ body ++ [⟨.endOfInput, text.length⟩] := by
        rw [htokens]
        simp
      rw [← hposition]
      rcases List.mem_append.1 ht with ht | ht
      · have := Lexer.offset_lt_of_lays hlays t ht
        rw [String.length_toList, Nat.zero_add] at this
        exact Nat.le_of_lt this
      · rw [List.mem_singleton.1 ht]
    · rw [← hposition]
      exact Lexer.offset_ne_of_tokens hlex
  · next e' hlex =>
    cases h
    -- the lexer has stopped before a rest that begins with no token
    obtain ⟨before, w, rest, ts, htext, hlays, hw, hfault, hposition⟩ :=
      Lexer.exists_fault_of_tokens_eq_error hlex
    have hstart : (Lexer.ofString text).position = 0 := rfl
    have hplace : e.position = (before ++ w).length := by
      rw [hposition, hstart, Nat.zero_add, List.length_append]
    refine ⟨?_, .inl ⟨before, w, rest, ts, htext, hlays, hw, hplace, hlex, hfault⟩⟩
    have hlength : text.toList.length = (before ++ (w ++ rest)).length := congrArg _ htext
    rw [String.length_toList, ← List.append_assoc, List.length_append] at hlength
    omega

/-- The second group is the one that is reported: the list in it is closed, and the first group
stands around it. -/
theorem explains_of_parse_eq_error_list_in_groups :
    let text := "(a;(b==(1,2)"
    parse text {} = .error (.unclosedGroup 3) ∧ 3 ≤ text.length ∧
      ∃ before t after, Token.lex text = .ok (before ++ t :: after) ∧ t.offset = 3 ∧
        t.token = .openParen ∧ 3 ∈ openParens (before ++ t :: after) := by
  intro text
  have hparse : parse text {} = .error (.unclosedGroup 3) := by decide +kernel
  obtain ⟨hle, ⟨_, _, _, _, -, -, -, -, -, hfault⟩ | ⟨before, t, after, hlex, hoffset, -, hexplains⟩⟩ :=
    explains_of_parse_eq_error hparse
  · cases hfault
  · refine ⟨hparse, hle, before, t, after, hlex, hoffset, ?_⟩
    generalize he : SyntaxError.unclosedGroup 3 = e at hexplains
    cases hexplains with
    | unclosedGroup ht hopen =>
      have hthree : t.offset = 3 := hoffset
      rw [hthree] at hopen
      exact ⟨ht, hopen⟩
    | _ => cases he

end Query

end FilterQuery
