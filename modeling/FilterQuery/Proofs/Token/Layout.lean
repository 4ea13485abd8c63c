import FilterQuery.Proofs.Token.Offsets

/-!
# Every text is laid out as tokens, up to a fault

`Spelling` goes from tokens to text; this module goes back. At every position the lexer finds the
end of the text, a token, or one of two faults (`finds_next`). So a text that can be split into
tokens consists of their spellings and of blanks (`lays_of_tokens`), and a text that cannot be split
consists of tokens up to a fault (`exists_fault_of_tokens_eq_error`).

A fault is described by the characters that start with it: an equals sign that starts no operator,
or a quote behind which no closing quote follows. What may stand between two quotes is
`QuotedBody`, where a backslash takes the next character with it.
-/

namespace FilterQuery

namespace Token

/-! ## Faults -/

/-- The characters can stand between two quotes: none of them is a quote, unless a backslash in
front of it escapes it. -/
inductive QuotedBody : List Char → Prop where
  | nil : QuotedBody []
  | plain {c : Char} {cs : List Char} (hquote : c ≠ '\'') (hslash : c ≠ '\\')
      (hcs : QuotedBody cs) : QuotedBody (c :: cs)
  | escaped (c : Char) {cs : List Char} (hcs : QuotedBody cs) : QuotedBody ('\\' :: c :: cs)

/-- The error that reports what the characters start with. -/
inductive Fault : List Char → SyntaxError → Prop where
  /-- An equals sign that starts neither `==` nor a name of letters between equals signs. -/
  | strayEquals {after : List Char} {p : Nat} (hequals : after.head? ≠ some '=')
      (hname : ∀ name rest, after = name ++ '=' :: rest → name ≠ [] →
        ∃ c ∈ name, isNameChar c = false) :
      Fault ('=' :: after) (.unexpected "'='" p)
  /-- A quote behind which none closes it. -/
  | unterminated {cs : List Char} {p : Nat}
      (hopen : ∀ body rest, cs = body ++ '\'' :: rest → ¬ QuotedBody body) :
      Fault ('\'' :: cs) (.unterminatedText p)

/-- What may stand between two quotes is read up to the second one. -/
theorem QuotedBody.readQuoted?_ne_none {body : List Char} (h : QuotedBody body)
    (rest : List Char) : readQuoted? (body ++ '\'' :: rest) ≠ none := by
  induction h with
  | nil => simp [readQuoted?]
  | plain hquote hslash _ ih =>
    rw [List.cons_append, readQuoted?_cons hquote hslash]
    simpa using ih
  | escaped c _ ih =>
    rw [List.cons_append, List.cons_append, readQuoted?]
    simpa using ih

/-- Where no operator is found behind an equals sign, there is none. The definition tests for a name
of letters by taking the longest one, so no other name has to be tried. -/
theorem fault_of_scanOperator {after : List Char} (h : scanOperator after = .strayEquals)
    (p : Nat) : Fault ('=' :: after) (.unexpected "'='" p) := by
  refine .strayEquals (fun hhead => ?_) fun name rest hafter hne => ?_
  · obtain ⟨cs, rfl⟩ := List.head?_eq_some_iff.1 hhead
    cases h
  · -- a name of letters would have been read as an operator
    by_contra hletters
    have hname : ∀ c ∈ (String.ofList name).toList, isNameChar c = true := by
      rw [String.toList_ofList]
      intro c hc
      by_contra hbad
      exact hletters ⟨c, hc, by simpa using hbad⟩
    have hne' : (String.ofList name).toList ≠ [] := by rwa [String.toList_ofList]
    obtain ⟨c, more, hcs, -, hscan⟩ := reads_comparison hne' hname rest
    obtain ⟨rfl, rfl⟩ := List.cons.inj hcs
    rw [String.toList_ofList, List.append_assoc, List.singleton_append, ← hafter] at hscan
    cases h.symm.trans hscan

/-! ## One token -/

theorem le_length_of_readQuoted? {cs text : List Char} {n : Nat}
    (h : readQuoted? cs = some (text, n)) : n ≤ cs.length := by
  fun_induction readQuoted? cs generalizing text n with
  | case1 => cases h
  | case2 rest =>
    cases h
    simp
  | case3 c rest ih =>
    obtain ⟨⟨text', k⟩, hk, heq⟩ := Option.map_eq_some_iff.1 h
    cases heq
    have := ih hk
    simp only [List.length_cons]
    omega
  | case4 c rest _ _ ih =>
    obtain ⟨⟨text', k⟩, hk, heq⟩ := Option.map_eq_some_iff.1 h
    cases heq
    have := ih hk
    simp only [List.length_cons]
    omega

theorem length_takeWord_le (cs : List Char) : (takeWord cs).length ≤ cs.length := by
  fun_induction takeWord cs with
  | case1 => exact Nat.le_refl _
  | case2 => exact Nat.zero_le _
  | case3 c rest _ ih =>
    simp only [List.length_cons]
    omega

/-- What starts at a character takes no more characters than there are, or it is a fault. -/
def Scan.Sound (c : Char) (cs : List Char) : Scan → Prop
  | .token _ n => n ≤ cs.length
  | .strayEquals => ∀ p, Fault (c :: cs) (.unexpected "'='" p)
  | .unterminated => ∀ p, Fault (c :: cs) (.unterminatedText p)

/-- What is found behind an equals sign is in the text, or the equals sign is a fault. -/
theorem sound_scanOperator (cs : List Char) : (scanOperator cs).Sound '=' cs := by
  cases h : scanOperator cs with
  | strayEquals => exact fault_of_scanOperator h
  | token t n =>
    show n ≤ cs.length
    unfold scanOperator at h
    split at h
    · cases h
      simp
    · simp only at h
      split at h
      · next hname =>
        cases h
        -- the name and at least the equals sign behind it
        have hsplit : (cs.takeWhile isNameChar).length + (cs.dropWhile isNameChar).length =
            cs.length := by
          rw [← List.length_append, List.takeWhile_append_dropWhile]
        have hhead : (cs.dropWhile isNameChar).head? = some '=' := by
          simpa using (Bool.and_eq_true_iff.1 hname).2
        have hpos := List.length_pos_of_mem (List.mem_of_head? hhead)
        omega
      · cases h
  | unterminated =>
    unfold scanOperator at h
    split at h
    · cases h
    · simp only at h
      split at h <;> cases h

/-- What is found at a character is in the text, or the character starts a fault. So the lexer never
advances past the end of the text because of a token. -/
theorem sound_scan (c : Char) (cs : List Char) : (scan c cs).Sound c cs := by
  unfold scan
  -- in the order in which the first character is looked at
  split
  · exact Nat.zero_le _
  split
  · exact Nat.zero_le _
  split
  · exact Nat.zero_le _
  split
  · exact Nat.zero_le _
  split
  · next hc =>
    rw [hc]
    exact sound_scanOperator cs
  split
  · next hmark => exact List.length_pos_of_mem (List.mem_of_head? hmark.2)
  split
  · next hc =>
    rw [hc]
    cases hread : readQuoted? cs with
    | some result => exact le_length_of_readQuoted? hread
    | none =>
      refine fun p => .unterminated fun body rest hcs hbody => ?_
      rw [hcs] at hread
      exact hbody.readQuoted?_ne_none rest hread
  · exact length_takeWord_le cs

/-- A token that starts with a character is spelled by it and some of the characters behind it. This
is the step from what the lexer computes to the relation that spelling is about. -/
theorem exists_reads_of_scan {c : Char} {cs : List Char} {t : Token} {n : Nat}
    (hc : Text.isBlank c = false) (h : scan c cs = .token t n) :
    ∃ ds rest, cs = ds ++ rest ∧ t.Reads (c :: ds) rest := by
  have hn : n ≤ cs.length := by
    have := sound_scan c cs
    rwa [h] at this
  have hlength : (cs.take n).length = n := List.length_take_of_le hn
  refine ⟨cs.take n, cs.drop n, (List.take_append_drop n cs).symm, c, cs.take n, rfl, hc, ?_⟩
  rw [List.take_append_drop, hlength, h]

end Token

/-! ## Texts -/

namespace Lexer

/-- What a call for the next token can give. -/
inductive Finds : Lexer → Except SyntaxError PlacedToken × Lexer → Prop where
  | endOfInput {w : List Char} {position : Nat} (hw : ∀ c ∈ w, Text.isBlank c = true) :
      Finds ⟨w, position⟩
        (.ok ⟨.endOfInput, position + w.length⟩, ⟨[], position + w.length⟩)
  | token {w cs rest : List Char} {position : Nat} {t : Token}
      (hw : ∀ c ∈ w, Text.isBlank c = true) (ht : t.Reads cs rest) :
      Finds ⟨w ++ cs ++ rest, position⟩
        (.ok ⟨t, position + w.length⟩, ⟨rest, position + w.length + cs.length⟩)
  | fault {w cs : List Char} {position : Nat} {e : SyntaxError} {after : Lexer}
      (hw : ∀ c ∈ w, Text.isBlank c = true) (he : Token.Fault cs e)
      (hposition : e.position = position + w.length) :
      Finds ⟨w ++ cs, position⟩ (.error e, after)

theorem skipBlanks_append {w : List Char} (hw : ∀ c ∈ w, Text.isBlank c = true) {c : Char}
    (hc : Text.isBlank c = false) (cs : List Char) (position : Nat) :
    skipBlanks ⟨w ++ c :: cs, position⟩ = ⟨c :: cs, position + w.length⟩ := by
  have htake : (w ++ c :: cs).takeWhile Text.isBlank = w := by
    rw [List.takeWhile_append_of_pos hw, List.takeWhile_cons_of_neg (by simp [hc]), List.append_nil]
  rw [skipBlanks, htake, advance, List.drop_left]

/-- Every call finds the end of the text, a token or a fault, behind the blanks. The three cases
exclude each other, but that is not needed here. -/
theorem finds_next (lx : Lexer) : lx.Finds lx.next := by
  obtain ⟨text, position⟩ := lx
  -- the blanks at the front, and what is behind them
  obtain ⟨w, cs, rfl, hw, hcs⟩ : ∃ w cs, text = w ++ cs ∧ (∀ c ∈ w, Text.isBlank c = true) ∧
      ∀ c ∈ cs.head?, Text.isBlank c = false := by
    refine ⟨text.takeWhile Text.isBlank, text.dropWhile Text.isBlank,
      List.takeWhile_append_dropWhile.symm, fun c hc => List.mem_takeWhile_imp hc, fun c hc => ?_⟩
    have := List.head?_dropWhile_not Text.isBlank text
    rw [hc] at this
    simpa using this
  cases cs with
  | nil =>
    rw [List.append_nil, next_blanks hw]
    exact .endOfInput hw
  | cons c cs =>
    have hc : Text.isBlank c = false := hcs c rfl
    have hsound := Token.sound_scan c cs
    cases hscan : Token.scan c cs with
    | token t n =>
      obtain ⟨ds, rest, rfl, hreads⟩ := Token.exists_reads_of_scan hc hscan
      rw [← List.cons_append, ← List.append_assoc, next_reads hw hreads]
      exact .token hw hreads
    | strayEquals =>
      rw [hscan] at hsound
      rw [next, skipBlanks_append hw hc]
      simp only [hscan]
      exact .fault hw (hsound _) rfl
    | unterminated =>
      rw [hscan] at hsound
      rw [next, skipBlanks_append hw hc]
      simp only [hscan]
      exact .fault hw (hsound _) rfl

theorem offset_lt_of_lays {position : Nat} {cs : List Char} {ts : List PlacedToken}
    (h : Lays position cs ts) : ∀ t ∈ ts, t.offset < position + cs.length := by
  induction h with
  | blanks _ => exact List.forall_mem_nil _
  | @token position w cs rest t ts _ ht _ ih =>
    obtain ⟨c, more, rfl, -, -⟩ := ht
    simp only [List.length_append, List.length_cons] at ih ⊢
    refine List.forall_mem_cons.2 ⟨by simp only; omega, fun u hu => ?_⟩
    have := ih u hu
    omega

theorem ne_endOfInput_of_lays {position : Nat} {cs : List Char} {ts : List PlacedToken}
    (h : Lays position cs ts) : ∀ t ∈ ts, t.token ≠ .endOfInput := by
  induction h with
  | blanks _ => exact List.forall_mem_nil _
  | token _ ht _ ih => exact List.forall_mem_cons.2 ⟨ht.ne_endOfInput, ih⟩

theorem length_le_of_lays {position : Nat} {cs : List Char} {ts : List PlacedToken}
    (h : Lays position cs ts) : ts.length ≤ cs.length := by
  induction h with
  | blanks _ => exact Nat.zero_le _
  | token _ ht _ ih =>
    obtain ⟨c, more, rfl, -, -⟩ := ht
    simp only [List.length_append, List.length_cons]
    omega

/-- The tokens of a text are laid out in it, and the end of input stands behind its last
character. -/
theorem lays_of_tokens {lx : Lexer} {ts : List PlacedToken} (h : lx.tokens = .ok ts) :
    ∃ body, ts = body ++ [⟨.endOfInput, lx.position + lx.rest.length⟩] ∧
      Lays lx.position lx.rest body := by
  refine tokens_induction (fun {lx _ t} hnext hend => ?_) (fun {lx _ t ts} hnext hne ih => ?_) h
  -- an end of input is found only where nothing but blanks is left
  · have hfinds := lx.finds_next
    rw [hnext] at hfinds
    cases hfinds with
    | endOfInput hw => exact ⟨[], rfl, .blanks hw⟩
    | token _ ht => exact absurd hend ht.ne_endOfInput
  · have hfinds := lx.finds_next
    rw [hnext] at hfinds
    cases hfinds with
    | endOfInput _ => exact absurd rfl hne
    | @token w cs rest position t hw ht =>
      obtain ⟨body, rfl, hlays⟩ := ih
      refine ⟨⟨t, position + w.length⟩ :: body, ?_, .token hw ht hlays⟩
      have hlength : (w ++ cs ++ rest).length = w.length + cs.length + rest.length := by
        rw [List.length_append, List.length_append]
      rw [hlength, List.cons_append, ← Nat.add_assoc, ← Nat.add_assoc]

/-- The characters, with `rest` behind them, consist of the tokens and of blanks in front of each of
them. -/
inductive LaysBefore (rest : List Char) : List Char → List Token → Prop where
  | nil : LaysBefore rest [] []
  | token {w cs ds : List Char} {t : Token} {ts : List Token}
      (hw : ∀ c ∈ w, Text.isBlank c = true) (ht : t.Reads cs (ds ++ rest))
      (hds : LaysBefore rest ds ts) : LaysBefore rest (w ++ cs ++ ds) (t :: ts)

/-- A text that cannot be split into tokens consists of tokens, blanks, and a rest that starts with
the fault that is reported. -/
theorem exists_fault_of_tokens_eq_error {lx : Lexer} {e : SyntaxError} (h : lx.tokens = .error e) :
    ∃ before w rest ts, lx.rest = before ++ (w ++ rest) ∧ LaysBefore (w ++ rest) before ts ∧
      (∀ c ∈ w, Text.isBlank c = true) ∧ Token.Fault rest e ∧
      e.position = lx.position + before.length + w.length := by
  fun_induction tokens lx with
  | case1 lx e' _ hnext =>
    cases h
    have hfinds := lx.finds_next
    rw [hnext] at hfinds
    cases hfinds with
    | @fault w cs _ _ _ hw he hposition => exact ⟨[], w, cs, [], rfl, .nil, hw, he, hposition⟩
  | case2 => cases h
  | case3 lx t after hnext hend hlt e' hrest ih =>
    cases h
    -- a token has been found, so the fault is behind it
    obtain ⟨before, w', rest', ts, hsplit, hlays, hw', he, hposition⟩ := ih hrest
    have hfinds := lx.finds_next
    rw [hnext] at hfinds
    cases hfinds with
    | endOfInput _ => exact absurd rfl hend
    | @token w cs rest position t hw ht =>
      simp only at hsplit hposition
      rw [hsplit] at ht
      refine ⟨w ++ cs ++ before, w', rest', t :: ts, ?_, .token hw ht hlays, hw', he, ?_⟩
      · rw [hsplit, List.append_assoc (w ++ cs)]
      · simp only [hposition, List.length_append]
        omega
  | case4 => cases h

end Lexer

/-- The tokens of a whole text. -/
theorem Token.exists_lays_of_lex {text : String} {tokens : List PlacedToken}
    (h : Token.lex text = .ok tokens) :
    ∃ body, tokens = body ++ [⟨.endOfInput, text.length⟩] ∧ Lays 0 text.toList body := by
  obtain ⟨body, rfl, hlays⟩ := Lexer.lays_of_tokens h
  refine ⟨body, ?_, hlays⟩
  rw [Lexer.ofString, String.length_toList, Nat.zero_add]

end FilterQuery
