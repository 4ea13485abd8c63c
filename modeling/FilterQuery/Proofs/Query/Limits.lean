import FilterQuery.Proofs.Query.Tally
import FilterQuery.Proofs.Token.Layout

/-!
# Limits only refuse

A limit never changes what a text is read as. Reading under limits gives the error about the first
limit that the tokens exceed, from left to right; if they exceed none, it gives what reading without
limits gives.

* `Limits.firstExceeded?` finds this error by counting along the tokens, without the machine.
* `Machine.stepFree` and `Machine.readFree` are the machine without limits, and `Machine.seen` are the
  tokens that it looks at. `step_eq` and `run_eq` say what the limits add to one step and to a run.
* `groupDepth_le_of_reaches`: a run within a limit on groups proves that the groups are no deeper.
-/

namespace FilterQuery

open Grammar

/-! ## The first limit that is exceeded -/

namespace Limits

/-- The limit that is exceeded behind the token `t`, where `c` has been counted. -/
def exceeded? (limits : Limits) (c : Tally) (t : PlacedToken) : Option SyntaxError :=
  if limits.depth < c.groups then some (.nestingTooDeep limits.depth t.offset)
  else if limits.terms < c.terms then some (.tooManyTerms limits.terms t.offset)
  else none

/-- The first limit that is exceeded behind one of the tokens, where `c` has been counted before. -/
def firstExceeded? (limits : Limits) (c : Tally) : List PlacedToken → Option SyntaxError
  | [] => none
  | t :: ts =>
    (limits.exceeded? (c.next t.token) t).or (limits.firstExceeded? (c.next t.token) ts)

/-- No limit is exceeded exactly if both counts are within theirs. -/
theorem exceeded?_eq_none_iff {limits : Limits} {c : Tally} {t : PlacedToken} :
    limits.exceeded? c t = none ↔ c.groups ≤ limits.depth ∧ c.terms ≤ limits.terms := by
  unfold exceeded?
  split
  · simp only [reduceCtorEq, false_iff]
    omega
  · split
    · simp only [reduceCtorEq, false_iff]
      omega
    · simp only [true_iff]
      omega

theorem of_exceeded? {limits : Limits} {c : Tally} {t : PlacedToken} {e : SyntaxError}
    (h : limits.exceeded? c t = some e) :
    e = .nestingTooDeep limits.depth t.offset ∨ e = .tooManyTerms limits.terms t.offset := by
  unfold exceeded? at h
  split at h
  · exact .inl (Option.some.inj h).symm
  · split at h
    · exact .inr (Option.some.inj h).symm
    · cases h

/-- What is reported along a sequence of tokens is one of the two limits, at some token. -/
theorem of_firstExceeded? {limits : Limits} {c : Tally} {ts : List PlacedToken} {e : SyntaxError}
    (h : limits.firstExceeded? c ts = some e) :
    ∃ p, e = .nestingTooDeep limits.depth p ∨ e = .tooManyTerms limits.terms p := by
  induction ts generalizing c with
  | nil => cases h
  | cons t ts ih =>
    rcases Option.or_eq_some_iff.1 h with h | ⟨-, h⟩
    · exact ⟨t.offset, of_exceeded? h⟩
    · exact ih h

end Limits

namespace Grammar.Tally

theorem groups_next_le (c : Tally) (t : Token) : (c.next t).groups ≤ c.groups + 1 := by
  unfold next
  split
  · exact Nat.le_succ _
  · split
    · exact Nat.le_refl _
    · exact Nat.le_succ _
  · simp only
    split <;> omega
  all_goals exact Nat.le_succ _

theorem terms_next_le (c : Tally) (t : Token) : (c.next t).terms ≤ c.terms + 1 := by
  have := Bool.toNat_le c.atOperand
  unfold next
  split
  · simp only
    omega
  · split <;> exact Nat.le_succ _
  all_goals exact Nat.le_succ _

/-- Only a word and a parenthesis at the place of an operand raise a count. So everywhere else a
state that is within the limits stays so. -/
theorem next_le {c : Tally} {t : Token}
    (h : c.atOperand = true → t ≠ .openParen ∧ ∀ w, t ≠ .word w) :
    (c.next t).groups ≤ c.groups ∧ (c.next t).terms = c.terms := by
  cases t with
  | word w =>
    have hvalue : c.atOperand = false := by
      by_contra hoperand
      exact (h (by simpa using hoperand)).2 w rfl
    simp [next, hvalue]
  | openParen =>
    have hvalue : c.atOperand = false := by
      by_contra hoperand
      exact (h (by simpa using hoperand)).1 rfl
    simp [next, hvalue]
  | closeParen =>
    simp only [next, and_true]
    split <;> omega
  | _ => exact ⟨Nat.le_refl _, rfl⟩

end Grammar.Tally

/-- Limits with room for a group and a constraint at every token that is left are not exceeded. A
text has no more tokens than characters, so limits as large as the text are never exceeded. -/
theorem Limits.firstExceeded?_eq_none {limits : Limits} {c : Tally} {ts : List PlacedToken}
    (hdepth : c.groups + ts.length ≤ limits.depth) (hterms : c.terms + ts.length ≤ limits.terms) :
    limits.firstExceeded? c ts = none := by
  induction ts generalizing c with
  | nil => rfl
  | cons t ts ih =>
    have hgroups := c.groups_next_le t.token
    have hcount := c.terms_next_le t.token
    rw [List.length_cons] at hdepth hterms
    rw [firstExceeded?, exceeded?_eq_none_iff.2 ⟨by omega, by omega⟩, ih (by omega) (by omega)]
    rfl

/-! ## The machine without limits -/

namespace Machine

/-- The next state after a token where no limit is met. -/
def stepFree (m : Machine) (t : PlacedToken) : Except SyntaxError Machine :=
  m.step ⟨m.outer.length + 1, 1⟩ 1 t

/-- The query that the tokens are read as where no limit is met. -/
def readFree (m : Machine) (endOffset : Nat) : List PlacedToken → Except SyntaxError Query
  | [] => m.finish endOffset
  | t :: ts =>
    match m.stepFree t with
    | .ok m' => m'.readFree endOffset ts
    | .error e => .error e

/-- The tokens that are looked at where no limit is met: all of them, or those up to the first one
that is refused. -/
def seen (m : Machine) : List PlacedToken → List PlacedToken
  | [] => []
  | t :: ts =>
    t :: match m.stepFree t with
      | .ok m' => m'.seen ts
      | .error _ => []

theorem seen_isPrefix (m : Machine) (ts : List PlacedToken) : m.seen ts <+: ts := by
  induction ts generalizing m with
  | nil => exact List.nil_prefix
  | cons t ts ih =>
    rw [seen]
    split
    · exact List.cons_prefix_cons.2 ⟨rfl, ih _⟩
    · exact List.cons_prefix_cons.2 ⟨rfl, List.nil_prefix⟩

/-- A query is found only after a look at all tokens. Where the tokens are no query, those behind
the refused one are not looked at, and limits that they exceed do not count. -/
theorem seen_of_readFree_eq_ok {m : Machine} {endOffset : Nat} {ts : List PlacedToken} {q : Query}
    (h : m.readFree endOffset ts = .ok q) : m.seen ts = ts := by
  induction ts generalizing m with
  | nil => rfl
  | cons t ts ih =>
    rw [readFree] at h
    rw [seen]
    split at h
    · rw [ih h]
    · cases h

/-- Within the limits, no limit is exceeded by a token that neither starts a constraint nor opens a
group. -/
theorem exceeded?_next_eq_none {limits : Limits} {m : Machine} {terms : Nat}
    (hdepth : m.outer.length ≤ limits.depth) (hterms : terms ≤ limits.terms) {t : PlacedToken}
    (h : m.mode.atOperand = true → t.token ≠ .openParen ∧ ∀ w, t.token ≠ .word w) :
    limits.exceeded? ((m.tally terms).next t.token) t = none := by
  have hcount : ((m.tally terms).next t.token).groups ≤ m.outer.length ∧
      ((m.tally terms).next t.token).terms = terms := Tally.next_le h
  exact Limits.exceeded?_eq_none_iff.2 ⟨by omega, by omega⟩

/-- **What the limits add to a step.** A state within the limits goes on as it would without them,
unless the token exceeds one. -/
theorem step_eq {limits : Limits} {m : Machine} {terms : Nat}
    (hdepth : m.outer.length ≤ limits.depth) (hterms : terms ≤ limits.terms) (t : PlacedToken) :
    m.step limits (terms + (m.startsTerm t).toNat) t =
      (limits.exceeded? ((m.tally terms).next t.token) t).elim (m.stepFree t) .error := by
  obtain ⟨mode, level, outer⟩ := m
  cases mode with
  | operand =>
    cases ht : t.token with
    | openParen =>
      simp only [step, stepFree, stepOperand, tally, Tally.next, Limits.exceeded?, ht,
        Mode.atOperand, if_true, Nat.lt_irrefl, if_false]
      -- a parenthesis opens a group, for which there has to be room
      by_cases hroom : limits.depth < outer.length + 1
      · simp [hroom]
      · simp [hroom, Nat.not_lt.2 hterms]
    | word w =>
      simp only [step, stepFree, stepOperand, startsTerm, tally, Tally.next, Limits.exceeded?, ht,
        Mode.atOperand, Bool.toNat_true, Nat.lt_irrefl, if_false]
      simp only [Nat.not_lt.2 hdepth, if_false]
      -- a word starts a constraint, for which there has to be room
      by_cases hroom : limits.terms < terms + 1
      · simp [hroom]
      · simp [hroom]
    | _ =>
      rw [← ht, exceeded?_next_eq_none hdepth hterms (fun _ => by simp [ht])]
      simp [step, stepFree, stepOperand, ht]
  | _ =>
    -- in no other mode does a limit matter
    rw [exceeded?_next_eq_none hdepth hterms fun h => absurd h Bool.false_ne_true]
    rfl

/-! ## How deep groups are in a run -/

/-- The greatest number of groups that are open at one time when the machine reads the tokens. An
equality operator has to be known to tell whether a parenthesis behind it opens a list. -/
def deepest (m : Machine) (ts : List Token) : Nat :=
  match m.mode with
  | .value _ op => deepestFrom m.outer.length false (.equality op :: ts)
  | .item _ _ _ _ => deepestFrom m.outer.length true ts
  | .items _ _ _ _ => deepestFrom m.outer.length true ts
  | _ => deepestFrom m.outer.length false ts

theorem deepest_nil (m : Machine) : m.deepest [] = m.outer.length := by
  unfold deepest
  split <;> simp [deepestFrom]

/-- A complete operand is outside of any list, so a parenthesis behind it closes a group. -/
theorem deepest_of_completed {mode : Mode} {q : Query} (hq : mode.completed? = some q)
    (level : Level) (outer : List (Nat × Level)) (ts : List Token) :
    deepest ⟨mode, level, outer⟩ ts = deepestFrom outer.length false ts := by
  cases mode <;> cases hq <;> rfl

/-- A move reads one token, and the greatest number of open groups from there on is the one counted
before the token: only a group that the token closes is counted in the machine before it. -/
theorem Moves.deepest_le {m m' : Machine} {t : PlacedToken} (h : Moves m t m') (ts : List Token) :
    m.deepest (t.token :: ts) ≤ max m.outer.length (m'.deepest ts) := by
  cases h with
  | closeGroup hq ht =>
    rw [deepest_of_completed hq, ht]
    simp [deepest, deepestFrom]
  -- by all other rules, nothing changes but for the token that has been read
  | factor hq ht | alternative hq ht =>
    refine Nat.le_trans (Nat.le_of_eq ?_) (Nat.le_max_right _ _)
    rw [deepest_of_completed hq, ht]
    simp [deepest, deepestFrom]
  | value ht | scalar ht | item ht =>
    refine Nat.le_trans (Nat.le_of_eq ?_) (Nat.le_max_right _ _)
    generalize t.token = u at ht
    cases ht <;> simp [deepest, deepestFrom]
  | openGroup ht | selector ht _ | equality ht | comparison ht | openList ht | nextItem ht
  | closeList ht =>
    refine Nat.le_trans (Nat.le_of_eq ?_) (Nat.le_max_right _ _)
    simp [deepest, deepestFrom, ht]

/-- A run that never has more than `depth` groups open reads tokens that never have. The induction
needs the room at the start: the groups that are open already are counted too. -/
theorem Reaches.deepest_le {depth n : Nat} {m m' : Machine} {ts : List PlacedToken}
    (h : Reaches depth m ts n m') (hm : m.outer.length ≤ depth) :
    m.deepest (ts.map PlacedToken.token) ≤ depth := by
  induction h with
  | refl m => rwa [List.map_nil, deepest_nil]
  | step hmove hdepth _ ih =>
    have hfirst := hmove.deepest_le
    have hrest := ih hdepth
    rw [List.map_cons]
    exact Nat.le_trans (hfirst _) (Nat.max_le.2 ⟨hm, hrest⟩)

/-- A run from the start that opens no more than `depth` groups reads tokens that are no deeper. -/
theorem groupDepth_le_of_reaches {depth n : Nat} {m : Machine} {ts : List PlacedToken}
    (h : Reaches depth start ts n m) : groupDepth (ts.map PlacedToken.token) ≤ depth :=
  h.deepest_le (Nat.zero_le _)

end Machine

/-! ## Runs of the parser -/

namespace Parser

open Machine

/-- **What the limits add to a run.** A run from a state within the limits gives the error about the
first limit that is exceeded along the tokens it would look at, and what it would give without
limits if none is. -/
theorem run_eq {limits : Limits} {m : Machine} {terms : Nat} {ts : List PlacedToken}
    (hend : ∀ t ∈ ts, t.token ≠ .endOfInput) (hdepth : m.outer.length ≤ limits.depth)
    (hterms : terms ≤ limits.terms) (endOffset : Nat) :
    (run limits endOffset m terms ts).1 =
      (limits.firstExceeded? (m.tally terms) (m.seen ts)).elim (m.readFree endOffset ts) .error := by
  -- at each token: first the limits, then what the token does, then the rest from a state that is
  -- within the limits again
  induction ts generalizing m terms with
  | nil => rfl
  | cons t ts ih =>
    obtain ⟨ht, hend⟩ := List.forall_mem_cons.1 hend
    rw [run, if_neg ht, seen, readFree, Limits.firstExceeded?]
    simp only [met_eq_add_toNat, step_eq hdepth hterms]
    cases hexceeded : limits.exceeded? ((m.tally terms).next t.token) t with
    | some e => rfl
    | none =>
      simp only [Option.elim_none, Option.none_or]
      cases hstep : m.stepFree t with
      | error e => rfl
      | ok m' =>
        obtain ⟨hdepth', hterms'⟩ := Limits.exceeded?_eq_none_iff.1 hexceeded
        have hnext := (moves_of_step hstep).tally_next terms
        rw [hnext] at hdepth' hterms'
        simp only [hnext]
        exact ih hend hdepth' hterms'

/-- A run from the start counts the constraints of the query that the tokens derive. The two counts
are made in different ways: one by the machine, one on the tree. -/
theorem count_of_reaches {depth n : Nat} {m : Machine} {ts : List PlacedToken} {q : Query}
    (h : Reaches depth start ts n m) (hq : Derives .alternatives (ts.map PlacedToken.token) q) :
    n = q.selectors.length := by
  -- the grammar has a run over the same tokens, and the tokens alone determine what a run counts
  obtain ⟨m', hreach, -⟩ := exists_reaches_of_derives hq rfl .empty [] (Nat.le_refl _)
  have hcount : m.tally n = m'.tally q.selectors.length :=
    (tally_of_reaches h).symm.trans (tally_of_reaches hreach)
  exact congrArg Tally.terms hcount

/-- Tokens are read as a query exactly if they derive it and the limits admit it. So limits decide
only about the depth of the groups and the number of the constraints, and both can be read off the
tokens. -/
theorem parse_eq_ok_iff {ts : List PlacedToken} {endOffset : Nat} {limits : Limits} {q : Query} :
    (ofTokens (ts ++ [⟨.endOfInput, endOffset⟩]) limits).parse.1 = .ok q ↔
      Derives .alternatives (ts.map PlacedToken.token) q ∧
        groupDepth (ts.map PlacedToken.token) ≤ limits.depth ∧
        q.selectors.length ≤ limits.terms := by
  constructor
  · intro h
    have hq := derives_of_parse h
    rw [parse_ofTokens] at h
    have hroom : start.outer.length ≤ limits.depth := Nat.zero_le _
    obtain ⟨n, m, hreach, hterms, -⟩ := exists_reaches_of_run hroom h
    have hcount := count_of_reaches hreach hq
    exact ⟨hq, groupDepth_le_of_reaches hreach, by omega⟩
  · rintro ⟨hq, hdepth, hterms⟩
    exact parse_of_derives hq endOffset hdepth hterms

end Parser

/-! ## Texts -/

namespace Query

theorem parse_of_lex_eq_ok {text : String} {body : List PlacedToken}
    (hlex : Token.lex text = .ok (body ++ [⟨.endOfInput, text.length⟩])) (limits : Limits) :
    parse text limits =
      (Parser.ofTokens (body ++ [⟨.endOfInput, text.length⟩]) limits).parse.1 := by
  rw [parse, hlex]

theorem parse_of_lex_eq_error {text : String} {e : SyntaxError} (hlex : Token.lex text = .error e)
    (limits : Limits) : parse text limits = .error e := by
  rw [parse, hlex]

/-- What the limits add to reading a text. The error is the one about the first token at which a
limit is exceeded, if there is one among those that are looked at. -/
theorem parse_eq_elim_firstExceeded? {text : String} {body : List PlacedToken}
    (hlex : Token.lex text = .ok (body ++ [⟨.endOfInput, text.length⟩]))
    (hbody : ∀ t ∈ body, t.token ≠ .endOfInput) (limits : Limits) :
    parse text limits = (limits.firstExceeded? .start (Machine.start.seen body)).elim
      (Machine.start.readFree text.length body) .error := by
  rw [parse_of_lex_eq_ok hlex, Parser.parse_ofTokens]
  exact Parser.run_eq hbody (Nat.zero_le _) (Nat.zero_le _) text.length

/-- What is known of a text that is read as a query: its tokens derive the query, and the limits admit
them. -/
theorem exists_derives_of_parse {text : String} {limits : Limits} {q : Query}
    (h : parse text limits = .ok q) :
    ∃ body, Token.lex text = .ok (body ++ [⟨.endOfInput, text.length⟩]) ∧
      Lays 0 text.toList body ∧ Derives .alternatives (body.map PlacedToken.token) q ∧
      groupDepth (body.map PlacedToken.token) ≤ limits.depth ∧
      q.selectors.length ≤ limits.terms := by
  cases hlex : Token.lex text with
  | error e =>
    rw [parse_of_lex_eq_error hlex] at h
    cases h
  | ok tokens =>
    obtain ⟨body, rfl, hlays⟩ := Token.exists_lays_of_lex hlex
    rw [parse_of_lex_eq_ok hlex, Parser.parse_eq_ok_iff] at h
    exact ⟨body, rfl, hlays, h⟩

/-- Raising limits changes nothing for a text that is read as a query. The number of its constraints
is within the first limit already. -/
theorem parse_mono {text : String} {limits limits' : Limits} {q : Query}
    (hdepth : limits.depth ≤ limits'.depth) (hterms : limits.terms ≤ limits'.terms)
    (h : parse text limits = .ok q) :
    parse text limits' = .ok q ∧ q.selectors.length ≤ limits.terms := by
  obtain ⟨body, hlex, -, hq, hgroups, hcount⟩ := exists_derives_of_parse h
  rw [parse_of_lex_eq_ok hlex, Parser.parse_eq_ok_iff]
  exact ⟨⟨hq, Nat.le_trans hgroups hdepth, Nat.le_trans hcount hterms⟩, hcount⟩

/-- What reading a text gives under limits follows from `result`, which it gives without them. -/
structure LimitFree (text : String) (result : Except SyntaxError Query) : Prop where
  /-- Limits that are no smaller than the length of the text give the result. -/
  of_le : ∀ limits : Limits, text.length ≤ limits.depth → text.length ≤ limits.terms →
    parse text limits = result
  /-- A text that cannot be split into tokens has the same error under all limits. -/
  of_lex_eq_error : ∀ e, Token.lex text = .error e → ∀ limits, parse text limits = .error e
  /-- For any other text, limits give the error about the first of them that is exceeded along the
  tokens that are read, and the result if none is. If the result is a query, all tokens are read,
  and the query is found exactly if the limits admit its groups and its constraints. -/
  of_lex_eq_ok : ∀ tokens, Token.lex text = .ok tokens →
    ∃ body read, tokens = body ++ [⟨.endOfInput, text.length⟩] ∧ read <+: body ∧
      (∀ limits : Limits,
        parse text limits = (limits.firstExceeded? .start read).elim result .error) ∧
      ∀ q, result = .ok q → read = body ∧ ∀ limits, parse text limits = .ok q ↔
        groupDepth (body.map PlacedToken.token) ≤ limits.depth ∧
          q.selectors.length ≤ limits.terms
  /-- A text that is no query is refused under all limits, with the same error or one about a
  limit. -/
  of_error : ∀ e, result = .error e → ∀ limits, parse text limits = .error e ∨
    ∃ p, parse text limits = .error (.nestingTooDeep limits.depth p) ∨
      parse text limits = .error (.tooManyTerms limits.terms p)

/-- The result of a text that cannot be split into tokens is the error of the lexer. -/
theorem limitFree_of_lex_eq_error {text : String} {e : SyntaxError}
    (hlex : Token.lex text = .error e) : LimitFree text (.error e) where
  of_le limits _ _ := parse_of_lex_eq_error hlex limits
  of_lex_eq_error e' hlex' limits := parse_of_lex_eq_error hlex' limits
  of_lex_eq_ok tokens hlex' := by
    cases hlex.symm.trans hlex'
  of_error e' he limits := by
    cases he
    exact .inl (parse_of_lex_eq_error hlex limits)

/-- The result of any other text is what its tokens are read as without limits. -/
theorem limitFree_of_lex_eq_ok {text : String} {body : List PlacedToken}
    (hlex : Token.lex text = .ok (body ++ [⟨.endOfInput, text.length⟩]))
    (hlays : Lays 0 text.toList body) :
    LimitFree text (Machine.start.readFree text.length body) := by
  have hparse := parse_eq_elim_firstExceeded? hlex (Lexer.ne_endOfInput_of_lays hlays)
  have hseen := Machine.start.seen_isPrefix body
  -- every token takes a character, so limits as large as the text cannot be exceeded
  have hlarge : ∀ limits : Limits, text.length ≤ limits.depth → text.length ≤ limits.terms →
      parse text limits = Machine.start.readFree text.length body := by
    intro limits hdepth hterms
    have hlength := Nat.le_trans hseen.length_le (Lexer.length_le_of_lays hlays)
    rw [String.length_toList] at hlength
    have hnone : limits.firstExceeded? .start (Machine.start.seen body) = none := by
      apply Limits.firstExceeded?_eq_none <;> simp only [Tally.start] <;> omega
    rw [hparse, hnone]
    rfl
  refine ⟨hlarge, fun e hlex' => ?_, fun tokens hlex' => ?_, fun e he limits => ?_⟩
  · cases hlex.symm.trans hlex'
  · cases hlex.symm.trans hlex'
    refine ⟨body, _, rfl, hseen, hparse, fun q hq => ⟨Machine.seen_of_readFree_eq_ok hq, ?_⟩⟩
    -- what large limits read is derived by the tokens, and for that the limits only have to admit
    -- it
    have hfree := hlarge ⟨text.length, text.length⟩ (Nat.le_refl _) (Nat.le_refl _)
    rw [hq, parse_of_lex_eq_ok hlex, Parser.parse_eq_ok_iff] at hfree
    intro limits
    rw [parse_of_lex_eq_ok hlex, Parser.parse_eq_ok_iff]
    exact and_iff_right hfree.1
  · rw [hparse, he]
    cases hexceeded : limits.firstExceeded? .start (Machine.start.seen body) with
    | none => exact .inl rfl
    | some e' =>
      obtain ⟨p, hp⟩ := Limits.of_firstExceeded? hexceeded
      refine .inr ⟨p, ?_⟩
      rcases hp with rfl | rfl
      · exact .inl rfl
      · exact .inr rfl

/-- **Limits only refuse.** Every text has a result that decides what it is read as under all limits.
Neither a chain nor a list of values counts as nesting. So raising a limit keeps a query as it is,
and the limit on constraints bounds the height of every tree. -/
theorem exists_limitFree (text : String) :
    (∃ result, LimitFree text result) ∧
    (∀ rank ts q separator us, Derives rank ts q → separator = .comma ∨ separator = .semicolon →
      groupDepth (ts ++ separator :: us) = max (groupDepth ts) (groupDepth us)) ∧
    (∀ ts q, Constraint ts q → groupDepth ts = 0) ∧
    (∀ limits limits' q, limits.depth ≤ limits'.depth → limits.terms ≤ limits'.terms →
      parse text limits = .ok q → parse text limits' = .ok q) ∧
    ∀ limits q, parse text limits = .ok q →
      q.depth ≤ q.selectors.length ∧ q.selectors.length ≤ limits.terms := by
  refine ⟨?_, fun _ _ _ _ us hq hs => groupDepth_append hq hs us, fun _ _ => groupDepth_constraint,
    fun _ _ _ hdepth hterms h => (parse_mono hdepth hterms h).1,
    fun _ q h => ⟨q.depth_le_length_selectors, ?_⟩⟩
  · cases hlex : Token.lex text with
    | error e => exact ⟨.error e, limitFree_of_lex_eq_error hlex⟩
    | ok tokens =>
      obtain ⟨body, rfl, hlays⟩ := Token.exists_lays_of_lex hlex
      exact ⟨_, limitFree_of_lex_eq_ok hlex hlays⟩
  · exact (parse_mono (Nat.le_refl _) (Nat.le_refl _) h).2

end Query

end FilterQuery
