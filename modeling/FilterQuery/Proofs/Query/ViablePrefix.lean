import FilterQuery.Proofs.Query.Recognition
import FilterQuery.Proofs.Token.Offsets

/-!
# Errors stand at the first token that no query continues with

A sequence of tokens is a viable prefix if a text can start with it: some query, followed by the end
of input, does. A parser with room for all tokens fails at the first token that ends a prefix which
is not viable, and this is the token that its error points at. Only the error about an open
parenthesis points elsewhere; it is found at the end of input.

* `Machine.completion`: from every state of the machine some tokens lead to the end of a query.
* `viablePrefix_iff_exists_reaches`: so the viable prefixes are those that the machine can read.
* `Parser.exists_reaches_of_run_eq_error`: where a run of the parser that fails has come to.
* `Query.viablePrefix_of_parse_eq_error`: the statement for texts.
-/

namespace FilterQuery

open Grammar

namespace Grammar

/-! ## Viable prefixes -/

/-- The tokens are a query and the end of input behind it. -/
def Sentence (ts : List Token) : Prop :=
  ∃ us q, ts = us ++ [.endOfInput] ∧ Derives .alternatives us q

/-- The tokens can be continued to a sentence. -/
def ViablePrefix (ts : List Token) : Prop := ∃ us, Sentence (ts ++ us)

theorem Items.ne_endOfInput {ts : List Token} {vs : List Literal} (h : Items ts vs) :
    ∀ t ∈ ts, t ≠ .endOfInput := by
  induction h with
  | last hv => simp [hv.ne_endOfInput]
  | more hv _ ih => simpa [hv.ne_endOfInput] using ih

theorem Constraint.ne_endOfInput {ts : List Token} {q : Query} (h : Constraint ts q) :
    ∀ t ∈ ts, t ≠ .endOfInput := by
  cases h with
  | present _ => simp
  | equality _ _ hv =>
    cases hv with
    | scalar hv => simp [hv.ne_endOfInput]
    | list hvs => simpa [or_imp, forall_and] using hvs.ne_endOfInput
  | comparison _ _ hv => simp [hv.ne_endOfInput]

/-- No end of input stands in a phrase, so a sentence has the one at its end and no other. -/
theorem Derives.ne_endOfInput {rank : Rank} {ts : List Token} {q : Query}
    (h : Derives rank ts q) : ∀ t ∈ ts, t ≠ .endOfInput := by
  induction h with
  | alternative _ ih => exact ih
  | factor _ ih => exact ih
  | or _ _ ihl ihr | and _ _ ihl ihr => simpa [or_imp, forall_and] using ⟨ihl, ihr⟩
  | group _ ih => simpa [or_imp, forall_and] using ih
  | constraint hq => exact hq.ne_endOfInput

/-- Where the end of input has not been met, a prefix is viable exactly if more tokens make a phrase
of it. -/
theorem viablePrefix_iff {ts : List Token} (hts : ∀ t ∈ ts, t ≠ .endOfInput) :
    ViablePrefix ts ↔ ∃ us q, Derives .alternatives (ts ++ us) q := by
  constructor
  · rintro ⟨us, vs, q, hsplit, hq⟩
    -- the end of input that closes the sentence is not one of the given tokens
    rcases List.eq_nil_or_concat us with rfl | ⟨us, t, rfl⟩
    · rw [List.append_nil] at hsplit
      exact absurd rfl (hts .endOfInput (by rw [hsplit]; simp))
    · rw [List.concat_eq_append, ← List.append_assoc] at hsplit
      obtain ⟨rfl, -⟩ := List.append_inj' hsplit rfl
      exact ⟨us, q, hq⟩
  · rintro ⟨us, q, hq⟩
    exact ⟨us ++ [.endOfInput], ts ++ us, q, by rw [List.append_assoc], hq⟩

/-- The end of input ends a viable prefix if it stands behind a query. Nothing can follow it, since
no phrase has an end of input in it. -/
theorem viablePrefix_concat_end_iff {ts : List Token} :
    ViablePrefix (ts ++ [.endOfInput]) ↔ ∃ q, Derives .alternatives ts q := by
  constructor
  · rintro ⟨us, vs, q, hsplit, hq⟩
    rcases List.eq_nil_or_concat us with rfl | ⟨us, t, rfl⟩
    · rw [List.append_nil] at hsplit
      obtain ⟨rfl, -⟩ := List.append_inj' hsplit rfl
      exact ⟨q, hq⟩
    · -- nothing can follow the end of input, because it would be a token of the query then
      rw [List.concat_eq_append, ← List.append_assoc] at hsplit
      obtain ⟨rfl, -⟩ := List.append_inj' hsplit rfl
      exact absurd rfl (hq.ne_endOfInput .endOfInput (by simp))
  · rintro ⟨q, hq⟩
    exact ⟨[], ts, q, by rw [List.append_nil], hq⟩

end Grammar

/-! ## Every state of the machine can be completed -/

/-- Tokens that complete the current operand. -/
def Mode.completion : Mode → List Token
  | .operand => [.word "x"]
  | .selector _ => []
  | .value _ _ => [.word "x"]
  | .scalar _ _ => [.word "x"]
  | .item _ _ _ _ => [.word "x", .closeParen]
  | .items _ _ _ _ => [.closeParen]
  | .complete _ => []

namespace Machine

/-- Tokens that complete the current operand and close the groups around it. -/
def completion (m : Machine) : List Token :=
  m.mode.completion ++ List.replicate m.outer.length .closeParen

/-- The tokens at an offset that does not matter. -/
def placed (ts : List Token) : List PlacedToken := ts.map fun t => ⟨t, 0⟩

theorem placed_append (ts us : List Token) : placed (ts ++ us) = placed ts ++ placed us :=
  List.map_append

theorem map_token_placed (ts : List Token) : (placed ts).map PlacedToken.token = ts := by
  rw [placed, List.map_map]
  exact List.map_id ts

/-- From every state, the completion of its mode leads to a complete operand at the same level. No
group is opened on the way. -/
theorem exists_reaches_completed (m : Machine) :
    ∃ n mode q, Reaches m.outer.length m (placed m.mode.completion) n ⟨mode, m.level, m.outer⟩ ∧
      mode.completed? = some q := by
  obtain ⟨mode, level, outer⟩ := m
  have hword : Scalar (.word "x") (.ofWord "x") := .word "x"
  cases mode with
  | operand =>
    have hselector : Selector.ofPath? "x" = some ⟨none, "x"⟩ := by decide
    exact ⟨_, _, _, .step (.selector rfl hselector) (Nat.le_refl _) (.refl _), rfl⟩
  | selector s => exact ⟨_, _, _, .refl _, rfl⟩
  | value s op => exact ⟨_, _, _, .step (.value hword) (Nat.le_refl _) (.refl _), rfl⟩
  | scalar s op => exact ⟨_, _, _, .step (.scalar hword) (Nat.le_refl _) (.refl _), rfl⟩
  | item s op opened items =>
    have hitem : Reaches outer.length ⟨.item s op opened items, level, outer⟩ [⟨.word "x", 0⟩] 0
        ⟨.items s op opened (.ofWord "x" :: items), level, outer⟩ :=
      .single (.item hword) rfl (Nat.le_refl _)
    exact ⟨_, _, _, hitem.trans (.single (.closeList rfl) rfl (Nat.le_refl _)), rfl⟩
  | items s op opened items =>
    exact ⟨_, _, _, .step (.closeList rfl) (Nat.le_refl _) (.refl _), rfl⟩
  | complete q => exact ⟨_, _, _, .refl _, rfl⟩

/-- Behind a complete operand, as many parentheses as there are groups close them all. -/
theorem exists_reaches_closed {mode : Mode} {last : Query} (hlast : mode.completed? = some last)
    (level : Level) (outer : List (Nat × Level)) :
    ∃ n mode' level' last', mode'.completed? = some last' ∧
      Reaches outer.length ⟨mode, level, outer⟩ (placed (List.replicate outer.length .closeParen)) n
        ⟨mode', level', []⟩ := by
  -- each parenthesis makes a complete operand of its group, one level further out
  induction outer generalizing mode level last with
  | nil => exact ⟨_, _, _, _, hlast, .refl _⟩
  | cons group outer ih =>
    obtain ⟨opened, around⟩ := group
    have hgroup : (Mode.complete (level.close last)).completed? = some (level.close last) := rfl
    obtain ⟨n, mode', level', last', hlast', hreach⟩ := ih hgroup around
    have hclose : Moves ⟨mode, level, (opened, around) :: outer⟩ ⟨.closeParen, 0⟩
        ⟨.complete (level.close last), around, outer⟩ := .closeGroup hlast rfl
    have hroom : outer.length ≤ outer.length + 1 := Nat.le_succ _
    exact ⟨_, mode', level', last', hlast', .step hclose hroom (hreach.mono hroom)⟩

theorem finish_of_completed {mode : Mode} {last : Query} (hlast : mode.completed? = some last)
    (level : Level) (endOffset : Nat) :
    finish ⟨mode, level, []⟩ endOffset = .ok (level.close last) := by
  cases mode <;> cases hlast <;> rfl

/-- The completion of a machine takes it to the end of a query. It does not matter which query this
is; there only has to be one. -/
theorem exists_reaches_completion (m : Machine) :
    ∃ n m' q, Reaches m.outer.length m (placed m.completion) n m' ∧ m'.finish 0 = .ok q := by
  obtain ⟨n, mode, last, hreach, hlast⟩ := exists_reaches_completed m
  obtain ⟨k, mode', level', last', hlast', hclosed⟩ :=
    exists_reaches_closed hlast m.level m.outer
  refine ⟨n + k, _, _, ?_, finish_of_completed hlast' level' 0⟩
  rw [completion, placed_append]
  exact hreach.trans hclosed

/-! ## What the machine can read -/

/-- A run over two pieces is a run over the first and one over the second. -/
theorem Reaches.split {depth n : Nat} {m m'' : Machine} {ts us : List PlacedToken}
    (h : Reaches depth m (ts ++ us) n m'') :
    ∃ k l m', Reaches depth m ts k m' ∧ Reaches depth m' us l m'' := by
  induction ts generalizing m n with
  | nil => exact ⟨0, n, m, .refl m, h⟩
  | cons t ts ih =>
    rw [List.cons_append] at h
    cases h with
    | step hmove hdepth hrest =>
      obtain ⟨k, l, m', hfirst, hsecond⟩ := ih hrest
      exact ⟨_, l, m', .step hmove hdepth hfirst, hsecond⟩

/-- The machine can read every beginning of a phrase, if there is room for its groups. -/
theorem exists_reaches_of_derives_append {ts : List PlacedToken} {us : List Token} {q : Query}
    (h : Derives .alternatives (ts.map PlacedToken.token ++ us) q) :
    ∃ depth n m, Reaches depth start ts n m := by
  have hplaced : (ts ++ placed us).map PlacedToken.token = ts.map PlacedToken.token ++ us := by
    rw [List.map_append, map_token_placed]
  obtain ⟨m, hreach, -⟩ := exists_reaches_of_derives h hplaced .empty [] (Nat.le_refl _)
  obtain ⟨k, -, m', hfirst, -⟩ := hreach.split
  exact ⟨_, k, m', hfirst⟩

/-- The viable prefixes, the end of input aside, are what the machine can read from its start. One
direction is completeness of the machine on a part of the tokens, the other one its completion. -/
theorem viablePrefix_iff_exists_reaches {ts : List PlacedToken}
    (hts : ∀ t ∈ ts, t.token ≠ .endOfInput) :
    ViablePrefix (ts.map PlacedToken.token) ↔ ∃ depth n m, Reaches depth start ts n m := by
  rw [viablePrefix_iff (by simpa using hts)]
  constructor
  · rintro ⟨us, q, hq⟩
    exact exists_reaches_of_derives_append hq
  · rintro ⟨depth, n, m, hreach⟩
    -- what the machine has read and its completion together are a query
    obtain ⟨k, m', q, hcompletion, hfinish⟩ := exists_reaches_completion m
    have hwhole := (hreach.mono (Nat.le_max_left depth m.outer.length)).trans
      (hcompletion.mono (Nat.le_max_right depth m.outer.length))
    have hq := derives_of_reaches hwhole hfinish
    rw [List.map_append, map_token_placed] at hq
    exact ⟨m.completion, q, hq⟩

/-- A token moves the machine in one way at most. The rules overlap nowhere: the mode and the token
determine which of them applies. -/
theorem Moves.unique {m a b : Machine} {t : PlacedToken} (ha : Moves m t a) (hb : Moves m t b) :
    a = b := by
  -- with room for both, each of them is what the one step of the machine gives
  let limits : Limits := ⟨max a.outer.length b.outer.length, 0⟩
  have hstep : m.step limits 0 t = .ok a :=
    step_of_moves ha (Nat.le_max_left _ _) fun _ => Nat.le_refl 0
  have hstep' : m.step limits 0 t = .ok b :=
    step_of_moves hb (Nat.le_max_right _ _) fun _ => Nat.le_refl 0
  exact Except.ok.inj (hstep.symm.trans hstep')

/-- So the tokens that have been read determine the machine, whatever room there is for groups. -/
theorem Reaches.unique {depth depth' n k : Nat} {m a b : Machine} {ts : List PlacedToken}
    (ha : Reaches depth m ts n a) (hb : Reaches depth' m ts k b) : a = b := by
  induction ha generalizing k with
  | refl _ => cases hb; rfl
  | step hmove _ _ ih =>
    cases hb with
    | step hmove' _ hrest =>
      cases hmove.unique hmove'
      exact ih hrest

/-- A machine that a token cannot move has read a prefix that the token makes impossible. A
continuation would be read by the same run, and the token would have to move the machine. -/
theorem not_viablePrefix_of_not_moves {depth n : Nat} {m : Machine} {ts : List PlacedToken}
    {t : PlacedToken} (hreach : Reaches depth start ts n m) (ht : t.token ≠ .endOfInput)
    (hstuck : ∀ m', ¬ Moves m t m') : ¬ ViablePrefix ((ts ++ [t]).map PlacedToken.token) := by
  have hbody : ∀ u ∈ ts ++ [t], u.token ≠ .endOfInput := by
    rw [List.forall_mem_append, List.forall_mem_singleton]
    exact ⟨hreach.ne_endOfInput, ht⟩
  rw [viablePrefix_iff_exists_reaches hbody]
  rintro ⟨depth', k, m', hlonger⟩
  -- a run over the longer prefix comes through the same machine, and the token moves it
  obtain ⟨_, _, m'', hsame, hlast⟩ := hlonger.split
  cases hreach.unique hsame
  cases hlast with
  | step hmove _ _ => exact hstuck _ hmove

/-- Where the machine ends in an error, the end of input makes what has been read impossible. -/
theorem not_viablePrefix_of_finish {depth n endOffset : Nat} {m : Machine} {ts : List PlacedToken}
    {e : SyntaxError} (hreach : Reaches depth start ts n m)
    (hfinish : m.finish endOffset = .error e) :
    ¬ ViablePrefix (ts.map PlacedToken.token ++ [.endOfInput]) := by
  rw [viablePrefix_concat_end_iff]
  rintro ⟨q, hq⟩
  obtain ⟨_, hread, mode, level, last, rfl, hlast, -⟩ :=
    exists_reaches_of_derives hq rfl .empty [] (Nat.le_refl _)
  cases hreach.unique hread
  rw [finish_of_completed hlast] at hfinish
  cases hfinish

/-! ## Where errors point -/

/-- An error at a token stands at the token, and it is not the one about an open parenthesis. -/
theorem position_of_step {limits : Limits} {terms : Nat} {m : Machine} {t : PlacedToken}
    {e : SyntaxError} (h : m.step limits terms t = .error e) :
    e.position = t.offset ∧ ∀ p, e ≠ .unclosedGroup p := by
  cases refuses_of_step h <;> exact ⟨rfl, fun _ h => SyntaxError.noConfusion h⟩

/-- An error at the end stands at the end, unless it is the one about an open parenthesis. An open
parenthesis is reported where it stands. -/
theorem position_of_finish {m : Machine} {endOffset : Nat} {e : SyntaxError}
    (h : m.finish endOffset = .error e) : (∀ p, e ≠ .unclosedGroup p) → e.position = endOffset := by
  intro hclosed
  have hopen {q : Query} (h : m.finishComplete q = .error e) : ∃ p, e = .unclosedGroup p := by
    unfold finishComplete at h
    split at h <;> cases h
    exact ⟨_, rfl⟩
  unfold finish at h
  split at h
  · obtain ⟨p, rfl⟩ := hopen h
    exact absurd rfl (hclosed p)
  · obtain ⟨p, rfl⟩ := hopen h
    exact absurd rfl (hclosed p)
  · cases h
    exact absurd rfl (hclosed _)
  · cases h
    rfl

theorem Moves.length_outer_le {m m' : Machine} {t : PlacedToken} (h : Moves m t m') :
    m'.outer.length ≤ m.outer.length + 1 := by
  cases h <;> simp only [List.length_cons] <;> omega

/-- A run opens no more groups than it has tokens. -/
theorem Reaches.length_outer_le {depth n : Nat} {m m' : Machine} {ts : List PlacedToken}
    (h : Reaches depth m ts n m') : m'.outer.length ≤ m.outer.length + ts.length := by
  induction h with
  | refl _ => exact Nat.le_refl _
  | step hmove _ _ ih =>
    have := hmove.length_outer_le
    rw [List.length_cons]
    omega

theorem Reaches.count_le {depth n : Nat} {m m' : Machine} {ts : List PlacedToken}
    (h : Reaches depth m ts n m') : n ≤ ts.length := by
  induction h with
  | refl _ => exact Nat.le_refl _
  | @step m _ _ t _ _ _ _ _ ih =>
    have := Bool.toNat_le (m.startsTerm t)
    rw [List.length_cons]
    omega

end Machine

namespace Parser

open Machine

/-- A run that fails, with limits that the tokens cannot exceed, has read some of the tokens and
stands before one that cannot move the machine, or it has read all of them and ends in an error. -/
theorem exists_reaches_of_run_eq_error {limits : Limits} {endOffset terms : Nat} {m : Machine}
    {ts : List PlacedToken} {e : SyntaxError} (hend : ∀ t ∈ ts, t.token ≠ .endOfInput)
    (hdepth : m.outer.length + ts.length ≤ limits.depth) (hterms : terms + ts.length ≤ limits.terms)
    (h : (run limits endOffset m terms ts).1 = .error e) :
    (∃ n m', Reaches limits.depth m ts n m' ∧ m'.finish endOffset = .error e) ∨
      ∃ before t after n m', ts = before ++ t :: after ∧ Reaches limits.depth m before n m' ∧
        (∀ m'', ¬ Moves m' t m'') ∧ e.position = t.offset ∧ ∀ p, e ≠ .unclosedGroup p := by
  obtain ⟨before, after, n, m', rfl, hreach, -, -, hhalts⟩ :=
    exists_halts_run (Nat.le_of_add_right_le hdepth) endOffset terms ts
  generalize run limits endOffset m terms (before ++ after) = r at h hhalts
  cases hhalts with
  | finish =>
    rw [List.append_nil]
    exact .inl ⟨n, m', hreach, h⟩
  | @trailing t ts _ ht _ | @unfinished t ts _ ht _ => exact absurd ht (hend t (by simp))
  | @refuse t ts _ _ hstep =>
    cases h
    obtain ⟨hposition, hclosed⟩ := position_of_step hstep
    refine .inr ⟨before, t, ts, n, m', rfl, hreach, fun m'' hmove => ?_, hposition, hclosed⟩
    -- no limit can be what stops the machine, so it is not stopped
    have houter := hreach.length_outer_le
    have hcount := hreach.count_le
    have hmore := hmove.length_outer_le
    have hone : (m'.startsTerm t).toNat ≤ 1 := Bool.toNat_le _
    rw [List.length_append, List.length_cons] at hdepth hterms
    cases hstep.symm.trans (step_of_moves hmove (by omega) fun _ => by omega)

end Parser

/-! ## Texts -/

namespace Query

/-- **Errors stand at the first impossible token.** Where a text that can be split into tokens is
not a query, and the limits cannot be the reason, one of its tokens ends the shortest prefix that is
not viable. The error points at this token and at no other one; the error about an open parenthesis
arises when this token is the end of input, behind all others. -/
theorem viablePrefix_of_parse_eq_error {text : String} {tokens : List PlacedToken} {limits : Limits}
    {e : SyntaxError} (hlex : Token.lex text = .ok tokens) (hdepth : tokens.length ≤ limits.depth)
    (hterms : tokens.length ≤ limits.terms) (h : parse text limits = .error e) :
    ∃ before t after, tokens = before ++ t :: after ∧
      ViablePrefix (before.map PlacedToken.token) ∧
      ¬ ViablePrefix ((before ++ [t]).map PlacedToken.token) ∧
      ((∀ p, e ≠ .unclosedGroup p) →
        t.offset = e.position ∧ ∀ u ∈ before ++ after, u.offset ≠ e.position) ∧
      ∀ p, e = .unclosedGroup p → t.token = .endOfInput ∧ after = [] := by
  obtain ⟨body, endOffset, rfl, hbody⟩ := Lexer.tokens_eq_concat_end hlex
  obtain ⟨-, hpairs⟩ := Lexer.pairwise_offset_tokens hlex
  -- offsets increase, so a token that the error points at is the only one
  have honly {before : List PlacedToken} {t : PlacedToken} {after : List PlacedToken}
      (hsplit : body ++ [⟨.endOfInput, endOffset⟩] = before ++ t :: after)
      (ht : t.offset = e.position) : ∀ u ∈ before ++ after, u.offset ≠ e.position := by
    rw [hsplit, List.pairwise_append, List.pairwise_cons] at hpairs
    obtain ⟨-, ⟨hafter, -⟩, hbefore⟩ := hpairs
    intro u hu
    rcases List.mem_append.1 hu with hu | hu
    · have := hbefore u hu t List.mem_cons_self
      omega
    · have := hafter u hu
      omega
  rw [List.length_append, List.length_singleton] at hdepth hterms
  simp only [parse, hlex, Parser.parse_ofTokens] at h
  rcases Parser.exists_reaches_of_run_eq_error hbody (m := .start) (by simp [Machine.start]; omega)
      (by omega) h with ⟨n, m, hreach, hfinish⟩ | ⟨before, t, after, n, m, rfl, hreach, hstuck,
        hposition, hclosed⟩
  -- the run has read all tokens, so the impossible one is the end of input
  · refine ⟨body, ⟨.endOfInput, endOffset⟩, [], rfl,
      (Machine.viablePrefix_iff_exists_reaches hbody).2 ⟨_, n, m, hreach⟩, ?_, fun hclosed => ?_,
      fun _ _ => ⟨rfl, rfl⟩⟩
    · rw [List.map_append]
      exact Machine.not_viablePrefix_of_finish hreach hfinish
    · have hposition := (Machine.position_of_finish hfinish hclosed).symm
      exact ⟨hposition, honly rfl hposition⟩
  · have ht := hbody t (by simp)
    have hbefore : ∀ u ∈ before, u.token ≠ .endOfInput := fun u hu => hbody u (by simp [hu])
    refine ⟨before, t, after ++ [⟨.endOfInput, endOffset⟩], by simp,
      (Machine.viablePrefix_iff_exists_reaches hbefore).2 ⟨_, n, m, hreach⟩,
      Machine.not_viablePrefix_of_not_moves hreach ht hstuck,
      fun _ => ⟨hposition.symm, honly (by simp) hposition.symm⟩, fun p hp => absurd hp (hclosed p)⟩

/-- A semicolon inside a list that stands in a group: it could follow anywhere in the group, but not
inside the list. -/
theorem viablePrefix_of_parse_eq_error_in_list :
    let tokens : List PlacedToken := [⟨.openParen, 0⟩, ⟨.word "a", 1⟩, ⟨.comma, 2⟩, ⟨.word "b", 3⟩,
      ⟨.equality .equal, 4⟩, ⟨.openParen, 6⟩, ⟨.word "1", 7⟩, ⟨.semicolon, 8⟩, ⟨.word "2", 9⟩,
      ⟨.closeParen, 10⟩, ⟨.closeParen, 11⟩, ⟨.endOfInput, 12⟩]
    Token.lex "(a,b==(1;2))" = .ok tokens ∧ tokens.length ≤ 12 ∧
      parse "(a,b==(1;2))" ⟨12, 12⟩ = .error (.unexpected "';'" 8) ∧
      ∃ before t after, tokens = before ++ t :: after ∧ t.offset = 8 ∧
        (∀ u ∈ before ++ after, u.offset ≠ 8) ∧ ViablePrefix (before.map PlacedToken.token) ∧
        ¬ ViablePrefix ((before ++ [t]).map PlacedToken.token) := by
  intro tokens
  have hlex : Token.lex "(a,b==(1;2))" = .ok tokens := by decide +kernel
  have hparse : parse "(a,b==(1;2))" ⟨12, 12⟩ = .error (.unexpected "';'" 8) := by decide +kernel
  obtain ⟨before, t, after, hsplit, hviable, hnot, hpoints, -⟩ :=
    viablePrefix_of_parse_eq_error hlex (by decide) (by decide) hparse
  obtain ⟨ht, honly⟩ := hpoints nofun
  exact ⟨hlex, by decide, hparse, before, t, after, hsplit, ht, honly, hviable, hnot⟩

end Query

end FilterQuery
