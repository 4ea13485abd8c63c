import FilterQuery.Proofs.Token.Layout

/-!
# Which characters belong to which token

A lexer must neither drop a part of a query nor make one up. What it may do is said here without it:

* `Token.Occupies t cs rest`: the characters `cs` belong to the token `t` where `rest` follows them,
  with one rule for each kind of token. A bare word is the longest run up to a place where a word can
  stop (`WordStop`); a quoted text runs to the first quote that no backslash escapes, and `unescape`
  gives its value.
* `Covers text first spans`: from the position `first` on, the text consists of the spans, one after
  another, and of blanks.

Scanning finds exactly what `Occupies` says (`occupies_of_reads`, `Occupies.reads`), so a text is
split into tokens exactly if it is covered by them (`lex_eq_ok_iff_covers`).
-/

namespace FilterQuery

namespace Token

/-! ## The characters of one token -/

/-- The places where a bare word can stop, by the characters that follow. -/
inductive WordStop : List Char → Prop where
  | endOfText : WordStop []
  | blank {c : Char} {rest : List Char} (hc : Text.isBlank c = true) : WordStop (c :: rest)
  | sign {c : Char} {rest : List Char} (hc : c ∈ [';', ',', '(', ')', '=']) : WordStop (c :: rest)
  | notEqual {rest : List Char} : WordStop ('!' :: '=' :: rest)

/-- The value of the characters between two quotes. A backslash before a quote or a backslash is
taken away; before any other character it stands for itself. -/
def unescape : List Char → List Char
  | [] => []
  | '\\' :: c :: rest =>
    if c = '\'' ∨ c = '\\' then c :: unescape rest else '\\' :: c :: unescape rest
  | c :: rest => c :: unescape rest

/-- The characters belong to the token, where `rest` follows them. -/
inductive Occupies : Token → List Char → List Char → Prop where
  /-- A word is its own text. It stops where it can stop, and nowhere before. -/
  | word {cs rest : List Char} (hne : cs ≠ []) (hquote : cs.head? ≠ some '\'')
      (hstop : WordStop rest) (hrun : ∀ ds, ds <:+ cs → ds ≠ [] → ¬ WordStop (ds ++ rest)) :
      Occupies (.word (String.ofList cs)) cs rest
  /-- No quote stands between the two, unless it is escaped. -/
  | quoted {body : List Char} (rest : List Char) (hbody : QuotedBody body) :
      Occupies (.quoted (String.ofList (unescape body))) ('\'' :: (body ++ ['\''])) rest
  | equal (rest : List Char) : Occupies (.equality .equal) ['=', '='] rest
  | notEqual (rest : List Char) : Occupies (.equality .notEqual) ['!', '='] rest
  /-- The name consists of the letters from `a` to `z` and from `A` to `Z`. -/
  | comparison {name : List Char} (rest : List Char) (hne : name ≠ [])
      (hname : ∀ c ∈ name, c.isAlpha = true) :
      Occupies (.comparison (String.ofList name)) ('=' :: (name ++ ['='])) rest
  | semicolon (rest : List Char) : Occupies .semicolon [';'] rest
  | comma (rest : List Char) : Occupies .comma [','] rest
  | openParen (rest : List Char) : Occupies .openParen ['('] rest
  | closeParen (rest : List Char) : Occupies .closeParen [')'] rest

theorem Occupies.ne_nil {t : Token} {cs rest : List Char} (h : t.Occupies cs rest) : cs ≠ [] := by
  cases h with
  | word hne => exact hne
  | _ => simp

/-- What follows a token matters only to a word, and to a word only where it can stop. -/
theorem Occupies.of_rest {t : Token} {cs rest rest' : List Char} (h : t.Occupies cs rest)
    (hstop : WordStop rest → WordStop rest')
    (hequals : rest'.head? = some '=' → rest.head? = some '=') : t.Occupies cs rest' := by
  cases h with
  | word hne hquote hstop' hrun =>
    refine .word hne hquote (hstop hstop') fun ds hds hne' hds' => hrun ds hds hne' ?_
    obtain ⟨c, more, rfl⟩ := List.exists_cons_of_ne_nil hne'
    -- the same rule applies; only `!` at the end of the word looks beyond it
    cases more with
    | cons d more =>
      cases hds' with
      | blank hc => exact .blank hc
      | sign hc => exact .sign hc
      | notEqual => exact .notEqual
    | nil =>
      generalize heq : [c] ++ rest' = cs' at hds'
      cases hds' with
      | endOfText => cases heq
      | blank hc => cases heq; exact .blank hc
      | sign hc => cases heq; exact .sign hc
      | notEqual =>
        cases heq
        obtain ⟨more, rfl⟩ := List.head?_eq_some_iff.1 (hequals rfl)
        exact .notEqual
  | quoted _ hbody => exact .quoted _ hbody
  | equal _ => exact .equal _
  | notEqual _ => exact .notEqual _
  | comparison _ hne hname => exact .comparison _ hne hname
  | semicolon _ => exact .semicolon _
  | comma _ => exact .comma _
  | openParen _ => exact .openParen _
  | closeParen _ => exact .closeParen _

/-! ## Words -/

theorem isDelimiter_iff {c : Char} : isDelimiter c = true ↔ c ∈ [';', ',', '(', ')', '='] := by
  simp [isDelimiter, or_assoc]

/-- The test of the lexer for the end of a word says where a word can stop. So the relation can be
decided, and the lexer decides it. -/
theorem endsWord_iff {c : Char} {rest : List Char} :
    endsWord c rest = true ↔ WordStop (c :: rest) := by
  constructor
  · intro h
    simp only [endsWord, Bool.or_eq_true, Bool.and_eq_true, beq_iff_eq] at h
    rcases h with (hc | ⟨rfl, hhead⟩) | hc
    · exact .sign (isDelimiter_iff.1 hc)
    · obtain ⟨more, rfl⟩ := List.head?_eq_some_iff.1 hhead
      exact .notEqual
    · exact .blank hc
  · intro h
    cases h with
    | blank hc => simp [endsWord, hc]
    | sign hc => simp [endsWord, isDelimiter_iff.2 hc]
    | notEqual => simp [endsWord]

theorem takeWord_isPrefix (cs : List Char) : takeWord cs <+: cs := by
  fun_induction takeWord cs with
  | case1 => exact List.nil_prefix
  | case2 => exact List.nil_prefix
  | case3 c rest _ ih => exact List.cons_prefix_cons.2 ⟨rfl, ih⟩

/-- A word is taken up to the first place where it can stop. The word is the longest one in both
directions: it stops there, and it could not have stopped before. -/
theorem takeWord_append_eq_iff {cs rest : List Char} :
    takeWord (cs ++ rest) = cs ↔
      WordStop rest ∧ ∀ ds, ds <:+ cs → ds ≠ [] → ¬ WordStop (ds ++ rest) := by
  induction cs with
  | nil =>
    have hnone : ∀ ds : List Char, ds <:+ [] → ds ≠ [] → ¬ WordStop (ds ++ rest) :=
      fun ds hds hne => absurd (List.suffix_nil.1 hds) hne
    rw [List.nil_append]
    cases rest with
    | nil => exact ⟨fun _ => ⟨.endOfText, hnone⟩, fun _ => rfl⟩
    | cons c rest =>
      rw [takeWord, ite_eq_left_iff, ← endsWord_iff, and_iff_left hnone]
      simp
  | cons c cs ih =>
    rw [List.cons_append, takeWord]
    -- at the first character the word stops or goes on, and on both sides the same is asked of the
    -- others
    by_cases hc : endsWord c (cs ++ rest) = true
    · have hstop : WordStop (c :: cs ++ rest) := endsWord_iff.1 hc
      simp only [hc, if_true]
      constructor
      · intro h
        cases h
      · rintro ⟨-, hrun⟩
        exact absurd hstop (hrun _ List.suffix_rfl (List.cons_ne_nil c cs))
    · have hgo : ¬ WordStop (c :: cs ++ rest) := fun h => hc (endsWord_iff.2 h)
      rw [if_neg hc, List.cons.injEq, eq_self, true_and, ih]
      refine and_congr_right fun _ => ⟨fun hrun ds hds hne => ?_, fun hrun ds hds => ?_⟩
      · rcases List.suffix_cons_iff.1 hds with rfl | hds
        · exact hgo
        · exact hrun ds hds hne
      · exact hrun ds (hds.trans (List.suffix_cons c cs))

/-! ## Quoted texts -/

theorem unescape_cons {c : Char} (hslash : c ≠ '\\') (rest : List Char) :
    unescape (c :: rest) = c :: unescape rest := by
  rw [unescape]
  intro _ _ h
  exact absurd h hslash

/-- What may stand between two quotes is read as its value, up to the second quote. -/
theorem QuotedBody.readQuoted? {body : List Char} (h : QuotedBody body) (rest : List Char) :
    readQuoted? (body ++ '\'' :: rest) = some (unescape body, body.length + 1) := by
  induction h with
  | nil => simp [Token.readQuoted?, unescape]
  | plain hquote hslash _ ih =>
    rw [List.cons_append, readQuoted?_cons hquote hslash, ih, unescape_cons hslash]
    rfl
  | escaped c _ ih =>
    rw [List.cons_append, List.cons_append, Token.readQuoted?, ih, unescape]
    rfl

/-- What is read as a quoted text stood between two quotes, and the second one is the first that no
backslash escapes. -/
theorem exists_quotedBody_of_readQuoted? {cs text : List Char} {n : Nat}
    (h : readQuoted? cs = some (text, n)) :
    ∃ body rest, cs = body ++ '\'' :: rest ∧ QuotedBody body ∧ text = unescape body ∧
      n = body.length + 1 := by
  fun_induction readQuoted? cs generalizing text n with
  | case1 => cases h
  | case2 rest =>
    cases h
    exact ⟨[], rest, rfl, .nil, rfl, rfl⟩
  | case3 c cs ih =>
    obtain ⟨⟨text', k⟩, hk, heq⟩ := Option.map_eq_some_iff.1 h
    cases heq
    obtain ⟨body, rest, rfl, hbody, rfl, rfl⟩ := ih hk
    exact ⟨'\\' :: c :: body, rest, rfl, .escaped c hbody, by rw [unescape], rfl⟩
  | case4 c cs hquote hslash ih =>
    obtain ⟨⟨text', k⟩, hk, heq⟩ := Option.map_eq_some_iff.1 h
    cases heq
    obtain ⟨body, rest, rfl, hbody, rfl, rfl⟩ := ih hk
    -- a backslash would have taken the next character with it, and there is one
    have hplain : c ≠ '\\' := by
      intro hc
      obtain ⟨d, ds, hds⟩ := List.exists_cons_of_ne_nil (l := body ++ '\'' :: rest) (by simp)
      exact hslash d ds hc hds
    refine ⟨c :: body, rest, rfl, .plain hquote hplain hbody, ?_, rfl⟩
    rw [unescape_cons hplain]

/-! ## Scanning -/

/-- What is found behind an equals sign belongs to the operator that it is. -/
theorem occupies_of_scanOperator {more rest : List Char} {t : Token}
    (h : scanOperator (more ++ rest) = .token t more.length) : t.Occupies ('=' :: more) rest := by
  unfold scanOperator at h
  split at h
  · next after heq =>
    obtain ⟨ht, hlength⟩ := Scan.token.inj h
    obtain ⟨c, rfl⟩ := List.length_eq_one_iff.1 hlength.symm
    cases heq
    rw [← ht]
    exact .equal rest
  · simp only at h
    split at h
    · next hname =>
      obtain ⟨ht, hlength⟩ := Scan.token.inj h
      simp only [Bool.and_eq_true, Bool.not_eq_true', List.isEmpty_eq_false_iff, beq_iff_eq] at hname
      obtain ⟨hne, hhead⟩ := hname
      obtain ⟨after, hafter⟩ := List.head?_eq_some_iff.1 hhead
      -- what follows the first equals sign is the name, the second one, and the rest
      have hsplit : more ++ rest = ((more ++ rest).takeWhile isNameChar ++ ['=']) ++ after := by
        rw [List.append_assoc, List.singleton_append, ← hafter, List.takeWhile_append_dropWhile]
      have hmore := List.append_inj_left hsplit (by simp [← hlength])
      have hoccupies := Occupies.comparison rest hne fun c hc => List.mem_takeWhile_imp hc
      rw [← ht]
      rwa [← hmore] at hoccupies
    · cases h

/-- What is read as a token belongs to it. With its converse, scanning and the rules for spans say
the same about every token. -/
theorem occupies_of_reads {t : Token} {cs rest : List Char} (h : t.Reads cs rest) :
    t.Occupies cs rest := by
  obtain ⟨c, more, rfl, hblank, hscan⟩ := h
  -- a sign takes no more characters
  have hsign {u : Token} (hscan : Scan.token u 0 = .token t more.length)
      (hu : u.Occupies [c] rest) : t.Occupies (c :: more) rest := by
    obtain ⟨rfl, hlength⟩ := Scan.token.inj hscan
    rwa [List.length_eq_zero_iff.1 hlength.symm]
  -- in the order in which the lexer looks at the first character
  unfold scan at hscan
  split at hscan
  · next hc => exact hsign hscan (hc ▸ .semicolon rest)
  split at hscan
  · next hc => exact hsign hscan (hc ▸ .comma rest)
  split at hscan
  · next hc => exact hsign hscan (hc ▸ .openParen rest)
  split at hscan
  · next hc => exact hsign hscan (hc ▸ .closeParen rest)
  split at hscan
  · next hc =>
    rw [hc]
    exact occupies_of_scanOperator hscan
  split at hscan
  · next hmark =>
    obtain ⟨rfl, hhead⟩ := hmark
    obtain ⟨ht, hlength⟩ := Scan.token.inj hscan
    obtain ⟨d, rfl⟩ := List.length_eq_one_iff.1 hlength.symm
    cases hhead
    rw [← ht]
    exact .notEqual rest
  split at hscan
  · next hc =>
    split at hscan
    · next text n hread =>
      obtain ⟨ht, hlength⟩ := Scan.token.inj hscan
      obtain ⟨body, after, hsplit, hbody, rfl, rfl⟩ := exists_quotedBody_of_readQuoted? hread
      rw [← List.singleton_append, ← List.append_assoc] at hsplit
      rw [List.append_inj_left hsplit (by simp [← hlength]), hc, ← ht]
      exact .quoted rest hbody
    · cases hscan
  · next hsemicolon hcomma hopen hclose hequals hmark hquote =>
    obtain ⟨ht, hlength⟩ := Scan.token.inj hscan
    have hmore : takeWord (more ++ rest) = more := by
      have := List.prefix_iff_eq_take.1 (takeWord_isPrefix (more ++ rest))
      rwa [hlength, List.take_left] at this
    have hdelimiter : isDelimiter c = false := by
      simp [isDelimiter, hsemicolon, hcomma, hopen, hclose, hequals]
    have hgo : endsWord c (more ++ rest) = false :=
      endsWord_eq_false (isBare_iff.2 ⟨hdelimiter, hblank⟩) fun hc hhead => hmark ⟨hc, hhead⟩
    have hword : takeWord (c :: more ++ rest) = c :: more := by
      rw [List.cons_append, takeWord, hgo, hmore]
      rfl
    obtain ⟨hstop, hrun⟩ := takeWord_append_eq_iff.1 hword
    rw [← ht, hmore]
    exact .word (List.cons_ne_nil c more) (fun hhead => hquote (Option.some.inj hhead)) hstop hrun

/-- What belongs to a token is read as it. -/
theorem Occupies.reads {t : Token} {cs rest : List Char} (h : t.Occupies cs rest) :
    t.Reads cs rest := by
  cases h with
  | @word cs _ hne hquote hstop hrun =>
    obtain ⟨c, more, rfl⟩ := List.exists_cons_of_ne_nil hne
    have hgo : endsWord c (more ++ rest) = false := by
      by_contra hend
      have hend : endsWord c (more ++ rest) = true := by simpa using hend
      exact hrun _ List.suffix_rfl hne (endsWord_iff.1 hend)
    have hmore : takeWord (more ++ rest) = more :=
      takeWord_append_eq_iff.2 ⟨hstop, fun ds hds => hrun ds (hds.trans (List.suffix_cons c more))⟩
    simp only [endsWord, isDelimiter, Bool.or_eq_false_iff, beq_eq_false_iff_ne] at hgo
    obtain ⟨⟨⟨⟨⟨⟨h1, h2⟩, h3⟩, h4⟩, h5⟩, hmark⟩, hblank⟩ := hgo
    have hmark' : ¬ (c = '!' ∧ (more ++ rest).head? = some '=') := by
      rintro ⟨rfl, hhead⟩
      simp [hhead] at hmark
    have hquote' : c ≠ '\'' := fun hc => hquote (by rw [hc]; rfl)
    refine ⟨c, more, rfl, hblank, ?_⟩
    rw [scan, if_neg h1, if_neg h2, if_neg h3, if_neg h4, if_neg h5, if_neg hmark', if_neg hquote',
      hmore]
  | @quoted body _ hbody =>
    refine ⟨'\'', body ++ ['\''], rfl, by decide, ?_⟩
    have hread := hbody.readQuoted? rest
    rw [List.append_assoc, List.singleton_append]
    simp [scan, hread]
  | equal _ => exact reads_equality .equal rest
  | notEqual _ => exact reads_equality .notEqual rest
  | @comparison name _ hne hname =>
    have hlist : (String.ofList name).toList = name := String.toList_ofList
    have hreads := reads_comparison (hlist.symm ▸ hne) (hlist.symm ▸ hname) rest
    rwa [hlist] at hreads
  | semicolon _ => exact reads_semicolon rest
  | comma _ => exact reads_comma rest
  | openParen _ => exact reads_openParen rest
  | closeParen _ => exact reads_closeParen rest

end Token

/-! ## The spans of a text -/

/-- A token with the range of its characters. -/
structure Span where
  token : Token
  /-- The position of the first character. -/
  start : Nat
  /-- The number of characters. -/
  width : Nat

namespace Span

/-- The position behind the last character. -/
def stop (s : Span) : Nat := s.start + s.width

/-- The token at its offset. -/
def placed (s : Span) : PlacedToken := ⟨s.token, s.start⟩

/-- The characters of the range in a text. -/
def chars (s : Span) (text : List Char) : List Char := (text.drop s.start).take s.width

/-- The characters of a text from the position `first` up to the range. -/
def gap (s : Span) (text : List Char) (first : Nat) : List Char :=
  (text.drop first).take (s.start - first)

/-- From a position before a span on, the text is the gap, the characters of the span and what
follows them. -/
theorem drop_eq_append (text : List Char) {first : Nat} {s : Span} (h : first ≤ s.start) :
    text.drop first = s.gap text first ++ s.chars text ++ text.drop s.stop := by
  have hstart : (text.drop first).drop (s.start - first) = text.drop s.start := by
    rw [List.drop_drop, Nat.add_sub_cancel' h]
  have hstop : (text.drop s.start).drop s.width = text.drop s.stop := List.drop_drop
  rw [gap, chars, List.append_assoc, ← hstop, List.take_append_drop, ← hstart,
    List.take_append_drop]

theorem length_chars {text : List Char} {s : Span} (h : s.stop ≤ text.length) :
    (s.chars text).length = s.width := by
  rw [stop] at h
  rw [chars, List.length_take, List.length_drop]
  omega

theorem length_gap {text : List Char} {first : Nat} {s : Span} (hfirst : first ≤ s.start)
    (h : s.stop ≤ text.length) : first + (s.gap text first).length = s.start := by
  rw [stop] at h
  rw [gap, List.length_take, List.length_drop]
  omega

end Span

/-- From the position `first` on, the text consists of the spans, in their order, and of blanks. -/
structure Covers (text : List Char) (first : Nat) (spans : List Span) : Prop where
  ordered : spans.Pairwise fun s u => s.stop ≤ u.start
  within : ∀ s ∈ spans, first ≤ s.start ∧ s.stop ≤ text.length
  occupies : ∀ s ∈ spans, s.token.Occupies (s.chars text) (text.drop s.stop)
  /-- What is in none of the ranges is blank. -/
  blank : ∀ i c, text[i]? = some c → first ≤ i → (∀ s ∈ spans, i < s.start ∨ s.stop ≤ i) →
    Text.isBlank c = true

/-- A text without spans is covered if it is blank. -/
theorem covers_nil_iff {text : List Char} {first : Nat} :
    Covers text first [] ↔ ∀ c ∈ text.drop first, Text.isBlank c = true := by
  constructor
  · intro h c hc
    obtain ⟨i, hi⟩ := List.mem_iff_getElem?.1 hc
    rw [List.getElem?_drop] at hi
    exact h.blank _ c hi (Nat.le_add_right _ _) (List.forall_mem_nil _)
  · intro h
    refine ⟨.nil, List.forall_mem_nil _, List.forall_mem_nil _, fun i c hi hfirst _ => ?_⟩
    have hdrop : (text.drop first)[i - first]? = some c := by
      rwa [List.getElem?_drop, Nat.add_sub_cancel' hfirst]
    exact h c (List.mem_of_getElem? hdrop)

/-- The first span of a text has blanks in front of it, and the others cover what follows it. With
it, statements about covered texts go by induction on the spans. -/
theorem covers_cons_iff {text : List Char} {first : Nat} {s : Span} {spans : List Span} :
    Covers text first (s :: spans) ↔
      (first ≤ s.start ∧ s.stop ≤ text.length) ∧
      (∀ c ∈ s.gap text first, Text.isBlank c = true) ∧
      s.token.Occupies (s.chars text) (text.drop s.stop) ∧ Covers text s.stop spans := by
  have hstop : s.start ≤ s.stop := Nat.le_add_right _ _
  constructor
  · intro h
    obtain ⟨hwithin, hwithins⟩ := List.forall_mem_cons.1 h.within
    obtain ⟨hoccupies, hothers⟩ := List.forall_mem_cons.1 h.occupies
    obtain ⟨hlater, hordered⟩ := List.pairwise_cons.1 h.ordered
    refine ⟨hwithin, fun c hc => ?_, hoccupies, hordered, fun u hu => ?_, hothers,
      fun i c hi hfirst hout => ?_⟩
    -- a character of the gap is in no span: it is before the first one, and the others come later
    · rw [Span.gap] at hc
      obtain ⟨j, hj⟩ := List.mem_iff_getElem?.1 hc
      have hlt : j < s.start - first := by
        by_contra hle
        rw [List.getElem?_take_eq_none (Nat.not_lt.1 hle)] at hj
        cases hj
      rw [List.getElem?_take_of_lt hlt, List.getElem?_drop] at hj
      refine h.blank _ c hj (Nat.le_add_right _ _) (List.forall_mem_cons.2 ⟨?_, fun u hu => ?_⟩)
      · omega
      · have := hlater u hu
        omega
    · exact ⟨hlater u hu, (hwithins u hu).2⟩
    · exact h.blank i c hi (by omega) (List.forall_mem_cons.2 ⟨.inr hfirst, hout⟩)
  · rintro ⟨⟨hfirst, hlength⟩, hblank, hoccupies, h⟩
    refine ⟨h.ordered.cons fun u hu => (h.within u hu).1,
      List.forall_mem_cons.2 ⟨⟨hfirst, hlength⟩, fun u hu => ?_⟩,
      List.forall_mem_cons.2 ⟨hoccupies, h.occupies⟩, fun i c hi hle hout => ?_⟩
    · have := h.within u hu
      omega
    · obtain ⟨hs, hout⟩ := List.forall_mem_cons.1 hout
      rcases hs with hbefore | hafter
      · have htake : (s.gap text first)[i - first]? = some c := by
          rw [Span.gap, List.getElem?_take_of_lt (by omega), List.getElem?_drop,
            Nat.add_sub_cancel' hle, hi]
        exact hblank c (List.mem_of_getElem? htake)
      · exact h.blank i c hi hafter hout

/-- A text that is covered is laid out as the tokens of the spans. -/
theorem Covers.lays {text : List Char} {first : Nat} {spans : List Span}
    (h : Covers text first spans) : Lays first (text.drop first) (spans.map Span.placed) := by
  induction spans generalizing first with
  | nil => exact .blanks (covers_nil_iff.1 h)
  | cons s spans ih =>
    obtain ⟨⟨hfirst, hlength⟩, hblank, hoccupies, hrest⟩ := covers_cons_iff.1 h
    have hgap := Span.length_gap hfirst hlength
    have hlays : Lays (first + (s.gap text first).length + (s.chars text).length)
        (text.drop s.stop) (spans.map Span.placed) := by
      rw [hgap, Span.length_chars hlength]
      exact ih hrest
    have := Lays.token hblank hoccupies.reads hlays
    rwa [hgap, ← Span.drop_eq_append text hfirst] at this

/-- A text that is laid out is covered by spans of the tokens. -/
theorem exists_covers_of_lays {position : Nat} {cs : List Char} {ts : List PlacedToken}
    (h : Lays position cs ts) {text : List Char} (htext : text.drop position = cs)
    (hposition : position ≤ text.length) :
    ∃ spans, spans.map Span.placed = ts ∧ Covers text position spans := by
  induction h with
  | blanks hw => exact ⟨[], rfl, covers_nil_iff.2 (htext ▸ hw)⟩
  | @token position w cs rest t ts hw ht _ ih =>
    have hstart : text.drop (position + w.length) = cs ++ rest := by
      rw [← List.drop_drop, htext, List.append_assoc, List.drop_left]
    have hstop : text.drop (position + w.length + cs.length) = rest := by
      rw [← List.drop_drop, hstart, List.drop_left]
    have hlength : position + w.length + cs.length ≤ text.length := by
      have := congrArg List.length htext
      simp only [List.length_drop, List.length_append] at this
      omega
    obtain ⟨spans, hspans, hcovers⟩ := ih hstop hlength
    -- the first token starts behind its blanks and is as wide as its spelling
    let s : Span := ⟨t, position + w.length, cs.length⟩
    have hgap : s.gap text position = w := by
      rw [Span.gap, htext, Nat.add_sub_cancel_left, List.append_assoc, List.take_left]
    have hchars : s.chars text = cs := by
      rw [Span.chars, hstart, List.take_left]
    refine ⟨s :: spans, ?_, covers_cons_iff.2 ⟨⟨Nat.le_add_right _ _, hlength⟩, ?_, ?_, hcovers⟩⟩
    · rw [List.map_cons, hspans]
      rfl
    · rwa [hgap]
    · rw [hchars, Span.stop, hstop]
      exact Token.occupies_of_reads ht

/-- **The lexer loses and invents nothing.** A text is split into tokens exactly if spans of these
tokens, one behind the other, and blanks make up the whole text. The end of input stands behind its
last character; no other token is one, and the offsets increase. -/
theorem Token.lex_eq_ok_iff_covers (text : String) (tokens : List PlacedToken) :
    Token.lex text = .ok tokens ↔
      ∃ spans, Covers text.toList 0 spans ∧
        tokens = spans.map Span.placed ++ [⟨.endOfInput, text.length⟩] ∧
        (∀ s ∈ spans, s.token ≠ .endOfInput) ∧
        tokens.Pairwise fun t u => t.offset < u.offset := by
  constructor
  · intro h
    obtain ⟨body, rfl, hlays⟩ := exists_lays_of_lex h
    obtain ⟨spans, rfl, hcovers⟩ := exists_covers_of_lays hlays rfl (Nat.zero_le _)
    refine ⟨spans, hcovers, rfl, fun s hs => ?_, (Lexer.pairwise_offset_tokens h).2⟩
    exact Lexer.ne_endOfInput_of_lays hlays s.placed (List.mem_map_of_mem hs)
  · rintro ⟨spans, hcovers, rfl, -, -⟩
    have := Lexer.tokens_of_lays hcovers.lays
    rw [List.drop_zero, Nat.zero_add, String.length_toList] at this
    exact this

end FilterQuery
