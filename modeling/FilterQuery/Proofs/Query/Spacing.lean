import FilterQuery.Proofs.Query.TruthfulErrors
import FilterQuery.Proofs.Token.Gaps

/-!
# Blanks around tokens do not matter

The reader looks at offsets only to report them: it copies the offset of a token into an error, or
keeps it with an open parenthesis. So moving the tokens moves the errors and changes nothing else.
`Machine.move` moves what a machine keeps; `step_move`, `finish_move` and `run_move` say that reading
and moving can be done in either order.

Together with `lex_insert` this gives `Query.parse_insert`, for texts with blanks put between their
tokens.
-/

namespace FilterQuery

/-- The same error at another position. -/
def SyntaxError.move (f : Nat → Nat) : SyntaxError → SyntaxError
  | unexpected found p => unexpected found (f p)
  | unterminatedText p => unterminatedText (f p)
  | unclosedGroup p => unclosedGroup (f p)
  | emptySelector p => emptySelector (f p)
  | invalidSelector word p => invalidSelector word (f p)
  | listInComparison operator p => listInComparison operator (f p)
  | nestingTooDeep limit p => nestingTooDeep limit (f p)
  | tooManyTerms limit p => tooManyTerms limit (f p)

/-- The mode with another offset of the list that is open. -/
def Mode.move (f : Nat → Nat) : Mode → Mode
  | .item s op opened read => .item s op (f opened) read
  | .items s op opened read => .items s op (f opened) read
  | mode => mode

namespace Machine

variable (f : Nat → Nat)

/-- The machine with other offsets of the parentheses that are open. -/
def move (m : Machine) : Machine :=
  ⟨m.mode.move f, m.level, m.outer.map fun (opened, level) => (f opened, level)⟩

/-- The outcome of a step, moved. -/
def moveResult : Except SyntaxError Machine → Except SyntaxError Machine
  | .ok m => .ok (m.move f)
  | .error e => .error (e.move f)

/-! ## One token -/

/-- Where an operand has to come, a step of a moved machine is a moved step. The limits look at how
many groups are open, not at where. -/
theorem stepOperand_move (limits : Limits) (terms : Nat) (level : Level)
    (outer : List (Nat × Level)) (t : PlacedToken) :
    (move f ⟨.operand, level, outer⟩).stepOperand limits terms (t.move f) =
      moveResult f (stepOperand limits terms ⟨.operand, level, outer⟩ t) := by
  obtain ⟨token, offset⟩ := t
  cases token with
  | openParen =>
    simp only [stepOperand, PlacedToken.move, move, List.length_map]
    split <;> rfl
  | word text =>
    simp only [stepOperand, PlacedToken.move]
    split
    · rfl
    · split <;> rfl
  | _ => rfl

theorem stepComplete_move (m : Machine) (q : Query) (t : PlacedToken) :
    (m.move f).stepComplete q (t.move f) = moveResult f (m.stepComplete q t) := by
  obtain ⟨mode, level, outer⟩ := m
  obtain ⟨token, offset⟩ := t
  cases token with
  | closeParen => cases outer <;> rfl
  | _ => rfl

/-- A step of a moved machine with a moved token is a moved step. By the modes of the machine: an
offset is kept by the two modes inside a list, and by the groups around. -/
theorem step_move (limits : Limits) (terms : Nat) (m : Machine) (t : PlacedToken) :
    (m.move f).step limits terms (t.move f) = moveResult f (m.step limits terms t) := by
  obtain ⟨mode, level, outer⟩ := m
  cases mode with
  | operand => exact stepOperand_move f limits terms level outer t
  | selector s =>
    -- a token that is no operator is read as behind the constraint of the selector alone
    have hcomplete := stepComplete_move f ⟨.selector s, level, outer⟩ (.present s) t
    obtain ⟨token, offset⟩ := t
    cases token with
    | equality op => rfl
    | comparison name => rfl
    | _ => exact hcomplete
  | complete q => exact stepComplete_move f ⟨.complete q, level, outer⟩ q t
  | value s op | scalar s op | item s op opened items | items s op opened items =>
    obtain ⟨token, offset⟩ := t
    cases token <;> rfl

theorem startsTerm_move (m : Machine) (t : PlacedToken) :
    (m.move f).startsTerm (t.move f) = m.startsTerm t := by
  obtain ⟨mode, level, outer⟩ := m
  cases mode <;> rfl

/-- A moved machine ends with the same query, or with the same error at the place to which its
position was moved. -/
theorem finish_move (m : Machine) (offset : Nat) :
    (m.move f).finish (f offset) = (m.finish offset).mapError (SyntaxError.move f) := by
  obtain ⟨mode, level, outer⟩ := m
  cases mode with
  | selector s => cases outer <;> rfl
  | complete q => cases outer <;> rfl
  | _ => rfl

end Machine

/-! ## Runs -/

namespace Parser

variable (f : Nat → Nat)

theorem firstOf_move (ts : List PlacedToken) (endOffset : Nat) :
    firstOf (ts.map (PlacedToken.move f)) (f endOffset) = (firstOf ts endOffset).move f := by
  cases ts <;> rfl

/-- A run over moved tokens gives the same query, or the same error at the place to which its token
was moved. -/
theorem run_move (limits : Limits) (endOffset : Nat) (m : Machine) (terms : Nat)
    (ts : List PlacedToken) :
    (run limits (f endOffset) (m.move f) terms (ts.map (PlacedToken.move f))).1 =
      (run limits endOffset m terms ts).1.mapError (SyntaxError.move f) := by
  induction ts generalizing m terms with
  | nil => exact m.finish_move f endOffset
  | cons t ts ih =>
    have htoken : (t.move f).token = t.token := rfl
    have hoffset : (t.move f).offset = f t.offset := rfl
    rw [List.map_cons, run, run, htoken]
    split
    · rw [hoffset, Machine.finish_move, firstOf_move]
      cases m.finish t.offset <;> rfl
    · simp only [Machine.startsTerm_move, Machine.step_move]
      cases m.step limits (if m.startsTerm t then terms + 1 else terms) t with
      | ok m' => exact ih m' _
      | error e => rfl

end Parser

/-! ## Texts -/

namespace Query

/-- **Blanks between tokens do not matter.** A text that can be split into tokens has a span for each
of them. Wherever blanks are put outside these spans, the text is read as the same query under the
same limits, or refused with the same error; the error points at a token, and moves with it. -/
theorem parse_insert {text : String} {tokens : List PlacedToken}
    (hlex : Token.lex text = .ok tokens) :
    ∃ spans, Covers text.toList 0 spans ∧
      tokens = spans.map Span.placed ++ [⟨.endOfInput, text.length⟩] ∧
      ∀ (gaps : Gaps spans) (limits : Limits),
        Token.lex (gaps.insert text) = .ok (tokens.map (PlacedToken.move gaps.shift)) ∧
        parse (gaps.insert text) limits =
          (parse text limits).mapError (SyntaxError.move gaps.shift) ∧
        ∀ e, parse text limits = .error e → ∃ t ∈ tokens, t.offset = e.position := by
  obtain ⟨body, rfl, hlays⟩ := Token.exists_lays_of_lex hlex
  obtain ⟨spans, rfl, hcovers⟩ := exists_covers_of_lays hlays rfl (Nat.zero_le _)
  refine ⟨spans, hcovers, rfl, fun gaps limits => ?_⟩
  have hinsert := lex_insert hcovers gaps
  refine ⟨?_, ?_, fun e he => ?_⟩
  · rw [hinsert, List.map_append, List.map_map]
    rfl
  · rw [parse, parse, hinsert, hlex]
    simp only [Parser.parse_ofTokens]
    rw [← Parser.run_move, List.map_map]
    rfl
  · rw [parse, hlex] at he
    simp only [Parser.parse_ofTokens] at he
    -- every error says of some token what is wrong with it, and stands there
    obtain ⟨before, t, after, htokens, hexplains⟩ :=
      exists_explains_of_run (Lexer.ne_endOfInput_of_lays hlays) he
    rw [htokens]
    refine ⟨t, by simp, ?_⟩
    cases hexplains <;> rfl

/-- Blanks before the operator, before the list and at the end. The error about the list that is never
closed moves with its parenthesis. -/
theorem parse_insert_before_list :
    let tokens : List PlacedToken := [⟨.word "a", 0⟩, ⟨.equality .notEqual, 1⟩, ⟨.openParen, 3⟩,
      ⟨.word "1", 4⟩, ⟨.endOfInput, 5⟩]
    Token.lex "a!=(1" = .ok tokens ∧ parse "a!=(1" {} = .error (.unclosedGroup 3) ∧
      parse "a !=\t\n(1 " {} = .error (.unclosedGroup 6) := by
  intro tokens
  have hlex : Token.lex "a!=(1" = .ok tokens := by decide +kernel
  have hparse : parse "a!=(1" {} = .error (.unclosedGroup 3) := by decide +kernel
  obtain ⟨spans, hcovers, htokens, hinsert⟩ := parse_insert hlex
  let blanks (p : Nat) : List Char :=
    if p = 1 ∨ p = 5 then [' '] else if p = 3 then ['\t', '\n'] else []
  -- the blanks stand where a token starts or the text ends, so they are inside none
  have houtside : ∀ s ∈ spans, ∀ p, s.start < p → p < s.stop → blanks p = [] := by
    have hmap := congrArg List.dropLast htokens
    rw [List.dropLast_concat] at hmap
    obtain ⟨a, rest, rfl, ha, hrest⟩ := List.map_eq_cons_iff.1 hmap.symm
    obtain ⟨b, rest, rfl, hb, hrest⟩ := List.map_eq_cons_iff.1 hrest
    obtain ⟨c, rest, rfl, hc, hrest⟩ := List.map_eq_cons_iff.1 hrest
    obtain ⟨d, rfl, hd⟩ := List.map_eq_singleton_iff.1 hrest
    have hstart : a.start = 0 ∧ b.start = 1 ∧ c.start = 3 ∧ d.start = 4 :=
      ⟨congrArg PlacedToken.offset ha, congrArg PlacedToken.offset hb,
        congrArg PlacedToken.offset hc, congrArg PlacedToken.offset hd⟩
    have hordered := hcovers.ordered
    have hend : d.stop ≤ 5 := (hcovers.within d (by simp)).2
    simp only [List.pairwise_cons, List.mem_cons, List.not_mem_nil, or_false, forall_eq_or_imp,
      forall_eq] at hordered
    intro s hs p hlt hgt
    simp only [List.mem_cons, List.not_mem_nil, or_false] at hs
    rcases hs with rfl | rfl | rfl | rfl
    · omega
    · obtain rfl : p = 2 := by omega
      rfl
    · omega
    · omega
  have hblank : ∀ p, ∀ c ∈ blanks p, Text.isBlank c = true := by
    intro p c hc
    simp only [blanks] at hc
    split at hc
    · exact List.all_eq_true.1 rfl c hc
    · split at hc <;> exact List.all_eq_true.1 rfl c hc
  have := (hinsert ⟨blanks, hblank, houtside⟩ {}).2.1
  rw [hparse] at this
  exact ⟨hlex, hparse, this⟩

end Query

end FilterQuery
