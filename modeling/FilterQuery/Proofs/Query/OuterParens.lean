import FilterQuery.Proofs.Query.Combination
import FilterQuery.Proofs.Query.ViablePrefix

/-!
# A parenthesis more

What one parenthesis more at an end of a query does to it: with both, the query stays as it is; with
the first alone, the text ends inside a group; with the last alone, there is no group to close.

The tokens of the query are the same in all four texts (`Lays.lexes`), so this is about what the
machine does with them. It reads a phrase wherever an operand may start, and it keeps the groups
around the phrase as they were (`exists_reaches_of_derives`). So behind the phrase it is the added
parenthesis that counts, and none of those inside:

* `run_openParen_eq_iff`: the group that is open at the end is the one that the first token opened;
* `run_closeParen`: behind a phrase that no group stands around, a closing parenthesis is refused.

Only the limit on nesting can interfere, since the added group stands around all others.
-/

namespace FilterQuery

open Grammar

/-- The greatest number of groups that are open at one time in a text. -/
def Query.nesting (text : String) : Nat :=
  match Token.lex text with
  | .ok tokens => groupDepth (tokens.map PlacedToken.token)
  | .error _ => 0

/-- A parenthesis in front of a phrase makes it one deeper, also if nothing closes it. -/
theorem Grammar.groupDepth_openParen {ts : List Token} {q : Query}
    (h : Derives .alternatives ts q) : groupDepth (.openParen :: ts) = groupDepth ts + 1 := by
  have := deepestFrom_append h 1 []
  rw [List.append_nil, deepestFrom] at this
  rw [groupDepth, deepestFrom, this]
  omega

/-! ## The machine behind a phrase -/

namespace Machine

/-- At the end of input inside a group, the parenthesis that opened the innermost group is reported.
-/
theorem finish_in_group {mode : Mode} {last : Query} (hlast : mode.completed? = some last)
    (level around : Level) (opened : Nat) (outer : List (Nat × Level)) (endOffset : Nat) :
    finish ⟨mode, level, (opened, around) :: outer⟩ endOffset = .error (.unclosedGroup opened) := by
  cases mode <;> cases hlast <;> rfl

theorem step_closeParen {mode : Mode} {last : Query} (hlast : mode.completed? = some last)
    (level : Level) {t : PlacedToken} (ht : t.token = .closeParen) (limits : Limits)
    (terms : Nat) : step limits terms ⟨mode, level, []⟩ t = .error (unexpected t) := by
  cases mode <;> cases hlast <;> simp [step, stepComplete, ht]

end Machine

namespace Parser

open Machine

section

variable {ts : List PlacedToken} {q : Query} {limits : Limits}

/-- Where a phrase follows a parenthesis that is never closed, this parenthesis is reported, unless
the groups are nested too deep. -/
theorem run_openParen_eq_iff (hq : Derives .alternatives (ts.map PlacedToken.token) q)
    (hterms : q.selectors.length ≤ limits.terms) {t : PlacedToken} (ht : t.token = .openParen)
    (endOffset : Nat) :
    (run limits endOffset .start 0 (t :: ts)).1 = .error (.unclosedGroup t.offset) ↔
      groupDepth (ts.map PlacedToken.token) < limits.depth := by
  constructor
  · intro h
    have hend : ∀ u ∈ t :: ts, u.token ≠ .endOfInput := by
      refine List.forall_mem_cons.2 ⟨by simp [ht], fun u hu => ?_⟩
      exact hq.ne_endOfInput u.token (List.mem_map_of_mem hu)
    have hroom : start.outer.length ≤ limits.depth := Nat.zero_le _
    obtain ⟨before, after, n, m, htokens, hreach, -, -, hhalts⟩ :=
      exists_halts_run hroom endOffset 0 (t :: ts)
    generalize run limits endOffset .start 0 (t :: ts) = r at h hhalts
    -- the error is found at the end, so the run has read all tokens within the limits
    cases hhalts with
    | finish =>
      rw [List.append_nil] at htokens
      have hdepth := groupDepth_le_of_reaches hreach
      rwa [← htokens, List.map_cons, ht, groupDepth_openParen hq] at hdepth
    | @trailing u us _ hu _ | @unfinished u us _ hu _ =>
      exact absurd hu (hend u (by simp [htokens]))
    | refuse _ hstep =>
      cases h
      exact absurd rfl ((position_of_step hstep).2 t.offset)
  · intro hdepth
    -- the parenthesis opens a group, and the phrase is read inside it and leaves it open
    have hopen : Reaches limits.depth start [t] 0 ⟨.operand, .empty, [(t.offset, .empty)]⟩ :=
      .single (.openGroup ht) (by simp [startsTerm, start, ht]) (Nat.le_of_add_left_le hdepth)
    have hroom : [(t.offset, Level.empty)].length + groupDepth (ts.map PlacedToken.token) ≤
        limits.depth := by
      rw [List.length_singleton]
      omega
    obtain ⟨_, hreach, mode, level, last, rfl, hlast, -⟩ :=
      exists_reaches_of_derives hq rfl .empty [(t.offset, .empty)] hroom
    rw [← List.singleton_append, run_of_reaches (hopen.trans hreach) (by omega)]
    exact finish_in_group hlast ..

/-- Behind a phrase that no group stands around, a closing parenthesis is refused. It is refused by
the machine at once, so what follows it does not matter. -/
theorem run_closeParen (hq : Derives .alternatives (ts.map PlacedToken.token) q)
    (hdepth : groupDepth (ts.map PlacedToken.token) ≤ limits.depth)
    (hterms : q.selectors.length ≤ limits.terms) {t : PlacedToken} (ht : t.token = .closeParen)
    (us : List PlacedToken) (endOffset : Nat) :
    (run limits endOffset .start 0 (ts ++ t :: us)).1 = .error (unexpected t) := by
  obtain ⟨_, hreach, mode, level, last, rfl, hlast, -⟩ :=
    exists_reaches_of_derives hq rfl .empty [] (by simpa using hdepth)
  rw [start, run_append_of_reaches hreach (by omega), run, if_neg (by simp [ht])]
  simp only [step_closeParen hlast level ht]

end

end Parser

/-! ## Texts -/

namespace Lexes

/-- Behind an opening parenthesis, a text has the same tokens, one character further on. -/
theorem exists_lays_behind_openParen {cs : List Char} {ts : List Token} (h : Lexes cs ts) :
    ∃ placed, placed.map PlacedToken.token = ts ∧ Lays 0 ('(' :: cs) (⟨.openParen, 0⟩ :: placed) := by
  have hend : Lays (1 + cs.length) [] [] := .blanks (List.forall_mem_nil _)
  obtain ⟨placed, hplaced, hlays⟩ := h 1 [] [] closing_nil hend
  rw [List.append_nil, List.append_nil] at hlays
  exact ⟨placed, hplaced, .token (List.forall_mem_nil _) (Token.reads_openParen _) hlays⟩

/-- In front of a closing parenthesis, a text has the same tokens as alone. -/
theorem exists_lays_before_closeParen {cs : List Char} {ts : List Token} (h : Lexes cs ts) :
    ∃ placed, placed.map PlacedToken.token = ts ∧
      Lays 0 (cs ++ [')']) (placed ++ [⟨.closeParen, cs.length⟩]) := by
  have hend : Lays (0 + cs.length + 0 + 1) [] [] := .blanks (List.forall_mem_nil _)
  have hclose : Lays (0 + cs.length) [')'] [⟨.closeParen, 0 + cs.length⟩] :=
    .token (List.forall_mem_nil _) (Token.reads_closeParen []) hend
  obtain ⟨placed, hplaced, hlays⟩ := h 0 [')'] _ (closing_cons (by decide) (by decide)) hclose
  rw [Nat.zero_add] at hlays
  exact ⟨placed, hplaced, hlays⟩

end Lexes

namespace Query

theorem nesting_of_lex {text : String} {body : List PlacedToken} {endOffset : Nat} {q : Query}
    (hlex : Token.lex text = .ok (body ++ [⟨.endOfInput, endOffset⟩]))
    (hq : Derives .alternatives (body.map PlacedToken.token) q) :
    nesting text = groupDepth (body.map PlacedToken.token) := by
  -- the end of input opens no group
  have hend := deepestFrom_append hq 0 [.endOfInput]
  rw [nesting, hlex]
  simp only [List.map_append, List.map_cons, List.map_nil]
  rw [groupDepth, hend]
  simp [deepestFrom]

theorem parse_of_lays {text : String} {body : List PlacedToken} (h : Lays 0 text.toList body)
    (limits : Limits) : parse text limits = (Parser.run limits text.length .start 0 body).1 := by
  have hlex : Token.lex text = .ok (body ++ [⟨.endOfInput, text.length⟩]) := by
    have := Lexer.tokens_of_lays h
    rwa [Nat.zero_add, String.length_toList] at this
  rw [parse_of_lex_eq_ok hlex, Parser.parse_ofTokens]

/-- **One parenthesis more.** Take a text that is read as a query. Between parentheses it is read as
the same query, and behind an opening one alone this parenthesis is reported as never closed, both
exactly if its groups are nested less deep than the limit admits. In front of a closing one alone,
this parenthesis is unexpected. -/
theorem parse_outer_parens {text : String} {limits : Limits} {q : Query}
    (h : parse text limits = .ok q) :
    (parse ("(" ++ text ++ ")") limits = .ok q ↔ nesting text < limits.depth) ∧
    (parse ("(" ++ text) limits = .error (.unclosedGroup 0) ↔ nesting text < limits.depth) ∧
    parse (text ++ ")") limits = .error (.unexpected "')'" text.length) := by
  obtain ⟨body, hlex, hlays, hq, hdepth, hterms⟩ := exists_derives_of_parse h
  have hlexes := hlays.lexes
  have hopen : "(".toList = ['('] := rfl
  have hclose : ")".toList = [')'] := rfl
  rw [nesting_of_lex hlex hq]
  refine ⟨?_, ?_, ?_⟩
  · have hboth : Lexes ("(" ++ text ++ ")").toList
        (.openParen :: (body.map PlacedToken.token ++ [.closeParen])) := by
      simpa [hopen, hclose] using hlexes.parens
    obtain ⟨placed, endOffset, hplaced, hlex⟩ := hboth.lex
    rw [parse, hlex]
    -- the group derives what is inside it, and it is one deeper
    simp only [Parser.parse_eq_ok_iff, hplaced, groupDepth_group hq]
    constructor
    · rintro ⟨-, hroom, -⟩
      exact hroom
    · intro hroom
      exact ⟨(Derives.group hq).ofOperand .alternatives, hroom, hterms⟩
  · obtain ⟨placed, hplaced, hlays⟩ := hlexes.exists_lays_behind_openParen
    rw [← List.singleton_append, ← hopen, ← String.toList_append] at hlays
    rw [← hplaced] at hq ⊢
    rw [parse_of_lays hlays]
    exact Parser.run_openParen_eq_iff hq hterms rfl _
  · obtain ⟨placed, hplaced, hlays⟩ := hlexes.exists_lays_before_closeParen
    rw [← hclose, ← String.toList_append, String.length_toList] at hlays
    rw [← hplaced] at hq hdepth
    rw [parse_of_lays hlays]
    exact Parser.run_closeParen hq hdepth hterms rfl [] _

/-- The text ends in a group and a blank, and parentheses stand in a quoted text and around a list.
The limits are as small as they can be. -/
theorem parse_outer_parens_list_and_group :
    let text := "x==(')',2);(y,z!) "
    let limits : Limits := ⟨2, 3⟩
    let q : Query := .and (.equality ⟨none, "x"⟩ .equal (.list [.text ")", .number (.integer 2)]))
      (.or (.present ⟨none, "y"⟩) (.present ⟨none, "z!"⟩))
    parse text limits = .ok q ∧ nesting text < limits.depth ∧
      parse ("(" ++ text ++ ")") limits = .ok q ∧
      parse ("(" ++ text) limits = .error (.unclosedGroup 0) ∧
      parse (text ++ ")") limits = .error (.unexpected "')'" 18) := by
  intro text limits q
  have hparse : parse text limits = .ok q := by decide +kernel
  have hnesting : nesting text < limits.depth := by decide +kernel
  have hlength : text.length = 18 := by decide
  obtain ⟨hboth, hopen, hclose⟩ := parse_outer_parens hparse
  rw [hlength] at hclose
  exact ⟨hparse, hnesting, hboth.2 hnesting, hopen.2 hnesting, hclose⟩

end Query

end FilterQuery
