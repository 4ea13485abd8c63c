import FilterQuery.Query
import FilterQuery.Token.Lexer

/-!
# Reading a query from tokens

The reader is a machine that takes one token at a time. It keeps the groups that are open, each with
the alternatives and factors read so far, and a mode that says what may come next. So it fails at
the first token that no query can continue with, or at the end if a group is still open.

Chains nest to the right: `a;b;c` is `a` and (`b` and `c`). The factors and alternatives of a level
are therefore kept with the latest one first and joined when the level is complete.

A parser keeps the tokens that are left and the number of constraints it has met, so it can be
asked again; it never moves past an end of input.

Main definitions: `Machine.step`, `Parser.parse`, `Query.parse`.
-/

namespace FilterQuery

/-- The bounds on what is accepted as a query. -/
structure Limits where
  /-- How deep groups may nest. -/
  depth : Nat := 128
  /-- How many constraints a query may hold. -/
  terms : Nat := 4096
deriving DecidableEq

/-! ## The machine -/

/-- The queries read so far at one level of nesting, the latest first. -/
structure Level where
  /-- Complete operands of "or". -/
  alternatives : List Query
  /-- Complete operands of the current "and". -/
  factors : List Query
deriving DecidableEq

namespace Level

/-- A level at which nothing has been read. -/
def empty : Level := ⟨[], []⟩

/-- The current "and" with `last` as its last operand. -/
def conjoin (level : Level) (last : Query) : Query :=
  level.factors.foldl (fun q factor => .and factor q) last

/-- The whole level with `last` as its last operand. -/
def close (level : Level) (last : Query) : Query :=
  level.alternatives.foldl (fun q alternative => .or alternative q) (level.conjoin last)

end Level

/-- What has just been read, and so what may come next. -/
inductive Mode where
  /-- A constraint or a group has to start. -/
  | operand
  /-- A selector has been read, which an operator may follow. -/
  | selector (s : Selector)
  /-- A value or a list of values has to follow. -/
  | value (s : Selector) (op : Equality)
  /-- A value has to follow, and no list may. -/
  | scalar (s : Selector) (op : Comparison)
  /-- Inside the list opened at the given offset, a value has to follow. The values read so far are
  kept with the latest first. -/
  | item (s : Selector) (op : Equality) (opened : Nat) (items : List Literal)
  /-- Inside a list, a value has been read. -/
  | items (s : Selector) (op : Equality) (opened : Nat) (items : List Literal)
  /-- A constraint or a group is complete. -/
  | complete (q : Query)
deriving DecidableEq

/-- The state of the reader between two tokens. -/
structure Machine where
  mode : Mode
  /-- The innermost level. -/
  level : Level
  /-- The levels around it, the nearest first, each with the offset of the parenthesis that was
  opened in it. -/
  outer : List (Nat × Level)
deriving DecidableEq

namespace Machine

/-- The machine before the first token. -/
def start : Machine := ⟨.operand, .empty, []⟩

/-- The machine in another mode. -/
def enter (m : Machine) (mode : Mode) : Machine := { m with mode }

/-- The value of a token that is a value. -/
def literal? : Token → Option Literal
  | .word text => some (.ofWord text)
  | .quoted text => some (.text text)
  | _ => none

/-- The error that reports a token in the wrong place. -/
def unexpected (t : PlacedToken) : SyntaxError := .unexpected t.token.describe t.offset

/-- The next state after a token where an operand has to start; `terms` counts the constraints met
so far, with the one that the token may start. -/
def stepOperand (limits : Limits) (terms : Nat) (m : Machine) (t : PlacedToken) :
    Except SyntaxError Machine :=
  match t.token with
  | .openParen =>
    if limits.depth < m.outer.length + 1 then .error (.nestingTooDeep limits.depth t.offset)
    else .ok ⟨.operand, .empty, (t.offset, m.level) :: m.outer⟩
  | .word text =>
    if limits.terms < terms then .error (.tooManyTerms limits.terms t.offset)
    else match Selector.ofPath? text with
      | some s => .ok (m.enter (.selector s))
      | none => .error (.invalidSelector text t.offset)
  | .equality _ => .error (.emptySelector t.offset)
  | .comparison _ => .error (.emptySelector t.offset)
  | _ => .error (unexpected t)

/-- The next state after a token that follows the complete operand `q`. -/
def stepComplete (m : Machine) (q : Query) (t : PlacedToken) : Except SyntaxError Machine :=
  match t.token, m.outer with
  | .semicolon, _ =>
    .ok ⟨.operand, { m.level with factors := q :: m.level.factors }, m.outer⟩
  | .comma, _ =>
    .ok ⟨.operand, ⟨m.level.conjoin q :: m.level.alternatives, []⟩, m.outer⟩
  | .closeParen, (_, level) :: outer => .ok ⟨.complete (m.level.close q), level, outer⟩
  | _, _ => .error (unexpected t)

/-- The next state after a token that is not the end of input. -/
def step (limits : Limits) (terms : Nat) (m : Machine) (t : PlacedToken) :
    Except SyntaxError Machine :=
  match m.mode with
  | .operand => m.stepOperand limits terms t
  | .selector s =>
    match t.token with
    | .equality op => .ok (m.enter (.value s op))
    | .comparison name => .ok (m.enter (.scalar s (.ofName name)))
    | _ => m.stepComplete (.present s) t
  | .value s op =>
    if t.token = .openParen then .ok (m.enter (.item s op t.offset []))
    else match literal? t.token with
      | some v => .ok (m.enter (.complete (.equality s op v)))
      | none => .error (unexpected t)
  | .scalar s op =>
    if t.token = .openParen then .error (.listInComparison op.name t.offset)
    else match literal? t.token with
      | some v => .ok (m.enter (.complete (.comparison s op v)))
      | none => .error (unexpected t)
  | .item s op opened items =>
    match literal? t.token with
    | some v => .ok (m.enter (.items s op opened (v :: items)))
    | none => .error (unexpected t)
  | .items s op opened items =>
    match t.token with
    | .comma => .ok (m.enter (.item s op opened items))
    | .closeParen => .ok (m.enter (.complete (.equality s op (.list items.reverse))))
    | _ => .error (unexpected t)
  | .complete q => m.stepComplete q t

/-- The query read, or what is missing, when the operand `q` is the last thing before the end. -/
def finishComplete (m : Machine) (q : Query) : Except SyntaxError Query :=
  match m.outer with
  | [] => .ok (m.level.close q)
  | (opened, _) :: _ => .error (.unclosedGroup opened)

/-- The query read, or what is missing, at an end of input with the given offset. -/
def finish (m : Machine) (offset : Nat) : Except SyntaxError Query :=
  match m.mode with
  | .selector s => m.finishComplete (.present s)
  | .complete q => m.finishComplete q
  | .items _ _ opened _ => .error (.unclosedGroup opened)
  | _ => .error (unexpected ⟨.endOfInput, offset⟩)

/-- Whether the token starts a constraint in this state. -/
def startsTerm (m : Machine) (t : PlacedToken) : Bool :=
  match m.mode, t.token with
  | .operand, .word _ => true
  | _, _ => false

end Machine

/-! ## The parser -/

/-- A parser: the tokens that are left to read, followed by an end of input, and the number of
constraints met so far. -/
structure Parser where
  /-- The tokens left before the closing end of input; an end of input may stand among them. -/
  tokens : List PlacedToken
  /-- The offset of the closing end of input. -/
  endOffset : Nat
  /-- The constraints met so far, those of failed attempts included. -/
  terms : Nat
  limits : Limits
deriving DecidableEq

namespace Parser

/-- A parser over a list of tokens. If the last one is an end of input it closes the list, otherwise
the list is closed one character after the start of its last token. -/
def ofTokens (tokens : List PlacedToken) (limits : Limits) : Parser :=
  match tokens.getLast? with
  | none => ⟨[], 0, 0, limits⟩
  | some last =>
    if last.token = .endOfInput then ⟨tokens.dropLast, last.offset, 0, limits⟩
    else ⟨tokens, last.offset + 1, 0, limits⟩

/-- The first of the tokens that are left, the closing end of input if there are none. -/
def firstOf (tokens : List PlacedToken) (endOffset : Nat) : PlacedToken :=
  tokens.headD ⟨.endOfInput, endOffset⟩

/-- The tokens that are left after an error at the first of them. It stays unread, unless it is a
word that was read as a selector and turned out to be none. -/
def afterError (e : SyntaxError) (t : PlacedToken) (ts : List PlacedToken) : List PlacedToken :=
  match e with
  | .invalidSelector _ _ => ts
  | _ => t :: ts

/-- Runs the machine over the tokens up to an end of input. Gives the result, the tokens that are
left and the number of constraints met. Nothing may follow an end of input. -/
def run (limits : Limits) (endOffset : Nat) (m : Machine) (terms : Nat) :
    List PlacedToken → Except SyntaxError Query × List PlacedToken × Nat
  | [] => (m.finish endOffset, [], terms)
  | t :: ts =>
    if t.token = .endOfInput then
      match m.finish t.offset with
      | .ok _ => (.error (Machine.unexpected (firstOf ts endOffset)), t :: ts, terms)
      | .error e => (.error e, t :: ts, terms)
    else
      let met := if m.startsTerm t then terms + 1 else terms
      match m.step limits met t with
      | .ok next => run limits endOffset next met ts
      | .error e => (.error e, afterError e t ts, met)

/-- Reads the tokens that are left as one query. -/
def parse (p : Parser) : Except SyntaxError Query × Parser :=
  let (result, tokens, terms) := run p.limits p.endOffset .start p.terms p.tokens
  (result, { p with tokens, terms })

end Parser

/-- Reads a text as a query. -/
def Query.parse (text : String) (limits : Limits) : Except SyntaxError Query :=
  match Token.lex text with
  | .ok tokens => (Parser.ofTokens tokens limits).parse.1
  | .error e => .error e

end FilterQuery
