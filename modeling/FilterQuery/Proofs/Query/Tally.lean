import FilterQuery.Proofs.Query.Recognition

/-!
# Counting along the tokens of a query

Two scans over a sequence of tokens from the left, which know nothing of the machine that reads
queries:

* `tally` counts the groups that are open and the constraints that have started. A parenthesis opens
  a group where an operand has to come, and a list of values anywhere else; a word starts a constraint
  where an operand has to come, and is a value anywhere else.
* `openParens` matches parentheses of both kinds and gives those that are open, the latest first.

On the tokens that the machine can read, both agree with what the machine keeps: `tally_of_reaches`
and `openParens_of_reaches`, each from one lemma about a single move.
-/

namespace FilterQuery

namespace Grammar

/-! ## The scans -/

/-- What has been counted at some place among the tokens of a query. -/
structure Tally where
  /-- The groups that are open. -/
  groups : Nat
  /-- The constraints that have started. -/
  terms : Nat
  /-- Whether the place is inside a list of values. -/
  inList : Bool
  /-- Whether a constraint or a group has to come next. -/
  atOperand : Bool
deriving DecidableEq

namespace Tally

/-- The count before the first token. -/
def start : Tally := ⟨0, 0, false, true⟩

/-- The count behind one more token. -/
def next (c : Tally) : Token → Tally
  | .word _ => ⟨c.groups, c.terms + c.atOperand.toNat, c.inList, false⟩
  | .openParen =>
    if c.atOperand then { c with groups := c.groups + 1 } else { c with inList := true }
  | .closeParen =>
    ⟨if c.inList then c.groups else c.groups - 1, c.terms, false, false⟩
  | .comma => { c with atOperand := !c.inList }
  | .semicolon => { c with atOperand := true }
  | _ => { c with atOperand := false }

/-- A value that stands where no operand has to come changes no count. -/
theorem next_scalar {c : Tally} {t : Token} {v : Literal} (ht : Scalar t v)
    (hc : c.atOperand = false) : c.next t = c := by
  obtain ⟨groups, terms, inList, atOperand⟩ := c
  cases hc
  cases ht <;> rfl

end Tally

/-- The count behind a sequence of tokens. -/
def tally (ts : List Token) : Tally := ts.foldl Tally.next .start

/-- The offsets of the parentheses that are open behind one more token. -/
def matchParen (opened : List Nat) (t : PlacedToken) : List Nat :=
  match t.token with
  | .openParen => t.offset :: opened
  | .closeParen => opened.tail
  | _ => opened

/-- The offsets of the parentheses that are open behind a sequence of tokens, the latest first. -/
def openParens (ts : List PlacedToken) : List Nat := ts.foldl matchParen []

/-- An operand comes first, or after an opening parenthesis or a separator. So an operator in such a
place has no selector in front of it. -/
theorem of_atOperand_tally {ts : List Token} (h : (tally ts).atOperand = true) :
    ∀ t ∈ ts.getLast?, t = .openParen ∨ t = .comma ∨ t = .semicolon := by
  intro t ht
  obtain ⟨us, rfl⟩ := List.getLast?_eq_some_iff.1 ht
  rw [tally, List.foldl_append, List.foldl_cons, List.foldl_nil] at h
  cases t with
  | openParen => exact .inl rfl
  | comma => exact .inr (.inl rfl)
  | semicolon => exact .inr (.inr rfl)
  | _ => simp [Tally.next] at h

end Grammar

open Grammar

/-! ## What the machine keeps -/

namespace Mode

/-- The offset of the list that is open in this mode. -/
def list? : Mode → Option Nat
  | .item _ _ opened _ => some opened
  | .items _ _ opened _ => some opened
  | _ => none

/-- Whether an operand has to come in this mode. -/
def atOperand : Mode → Bool
  | .operand => true
  | _ => false

theorem list?_of_completed {mode : Mode} {q : Query} (h : mode.completed? = some q) :
    mode.list? = none := by
  cases mode <;> cases h <;> rfl

end Mode

namespace Machine

/-- The count that a machine stands for, when `terms` constraints have started. -/
def tally (m : Machine) (terms : Nat) : Tally :=
  ⟨m.outer.length, terms, m.mode.list?.isSome, m.mode.atOperand⟩

/-- The offsets of the parentheses that a machine keeps, the latest first. -/
def openParens (m : Machine) : List Nat := m.mode.list?.toList ++ m.outer.map Prod.fst

/-- A move changes the count of the machine as its token changes the count of the scan. What the
machine knows by its mode, the scan knows by two truth values. -/
theorem Moves.tally_next {m m' : Machine} {t : PlacedToken} (h : Moves m t m') (terms : Nat) :
    (m.tally terms).next t.token = m'.tally (terms + (m.startsTerm t).toNat) := by
  cases h with
  | value ht | scalar ht | item ht => exact Tally.next_scalar ht rfl
  | factor hq ht | alternative hq ht | closeGroup hq ht =>
    -- a complete operand is in no list
    rw [startsTerm_of_completed hq, ht]
    simp only [tally, Mode.list?_of_completed hq]
    rfl
  | _ => simp_all [tally, Tally.next, Mode.list?, Mode.atOperand, startsTerm]

/-- A move changes the parentheses that the machine keeps as its token changes those of the scan. -/
theorem Moves.matchParen {m m' : Machine} {t : PlacedToken} (h : Moves m t m') :
    matchParen m.openParens t = m'.openParens := by
  cases h with
  | @value _ _ _ _ _ t ht | @scalar _ _ _ _ _ t ht | @item _ _ _ _ _ _ _ t ht =>
    -- a value is no parenthesis
    obtain ⟨token, offset⟩ := t
    cases ht <;> rfl
  | factor hq ht | alternative hq ht | closeGroup hq ht =>
    -- a separator leaves the groups as they are, and a parenthesis closes the innermost one
    simp only [Grammar.matchParen, ht, openParens, Mode.list?_of_completed hq]
    rfl
  | _ => simp_all [Grammar.matchParen, openParens, Mode.list?]

theorem Reaches.foldl_next {depth n : Nat} {m m' : Machine} {ts : List PlacedToken}
    (h : Reaches depth m ts n m') (terms : Nat) :
    (ts.map PlacedToken.token).foldl Tally.next (m.tally terms) = m'.tally (terms + n) := by
  induction h generalizing terms with
  | refl _ => rfl
  | step hmove _ _ ih => rw [List.map_cons, List.foldl_cons, hmove.tally_next, ih, Nat.add_assoc]

theorem Reaches.foldl_matchParen {depth n : Nat} {m m' : Machine} {ts : List PlacedToken}
    (h : Reaches depth m ts n m') : ts.foldl matchParen m.openParens = m'.openParens := by
  induction h with
  | refl _ => rfl
  | step hmove _ _ ih => rw [List.foldl_cons, hmove.matchParen, ih]

/-- The scan has counted what the machine keeps. -/
theorem tally_of_reaches {depth n : Nat} {m : Machine} {ts : List PlacedToken}
    (h : Reaches depth start ts n m) : Grammar.tally (ts.map PlacedToken.token) = m.tally n := by
  have := h.foldl_next 0
  rwa [Nat.zero_add] at this

/-- The parentheses that are open are those that the machine keeps. -/
theorem openParens_of_reaches {depth n : Nat} {m : Machine} {ts : List PlacedToken}
    (h : Reaches depth start ts n m) : Grammar.openParens ts = m.openParens :=
  h.foldl_matchParen

end Machine

end FilterQuery
