import FilterQuery.SyntaxError
import FilterQuery.Text.Blank
import FilterQuery.Token

/-!
# Splitting a text into tokens

A lexer stands at a position in a text. Its next token is found by skipping blanks and looking at the
first character; `scan` says which token starts there and how many characters it takes. A lexer can
be asked again after a fault: it stays on an equals sign that starts no operator, and it is at the
end of the text after a quoted text that is never closed.

Main definitions: `Lexer.next`, one token, and `Token.lex`, all tokens up to the end of input.
-/

namespace FilterQuery

namespace Token

/-- The characters that are tokens of their own or start an operator. -/
def isDelimiter (c : Char) : Bool := c == ';' || c == ',' || c == '(' || c == ')' || c == '='

/-- Whether a bare word ends before `c`, given the characters after `c`. -/
def endsWord (c : Char) (after : List Char) : Bool :=
  isDelimiter c || (c == '!' && after.head? == some '=') || Text.isBlank c

/-- The bare word at the start of a text. -/
def takeWord : List Char → List Char
  | [] => []
  | c :: rest => if endsWord c rest then [] else c :: takeWord rest

/-- Reads a quoted text after its opening quote: the text without escapes, and the number of
characters up to and including the closing quote. A backslash escapes a quote and a backslash;
before any other character it stands for itself. -/
def readQuoted? : List Char → Option (List Char × Nat)
  | [] => none
  | '\'' :: _ => some ([], 1)
  | '\\' :: c :: rest =>
    (readQuoted? rest).map fun (text, n) =>
      (if c = '\'' ∨ c = '\\' then c :: text else '\\' :: c :: text, n + 2)
  | c :: rest => (readQuoted? rest).map fun (text, n) => (c :: text, n + 1)

/-- Whether a character may stand in the name of an operator. -/
def isNameChar (c : Char) : Bool := c.isAlpha

/-- What starts at a character. -/
inductive Scan where
  /-- A token that takes `more` characters after the first one. -/
  | token (t : Token) (more : Nat)
  /-- An equals sign that starts no operator. -/
  | strayEquals
  /-- A quote that is never closed. -/
  | unterminated

/-- What starts at an equals sign, given the characters after it. -/
def scanOperator : List Char → Scan
  | '=' :: _ => .token (.equality .equal) 1
  | rest =>
    let name := rest.takeWhile isNameChar
    if !name.isEmpty && (rest.dropWhile isNameChar).head? == some '=' then
      .token (.comparison (String.ofList name)) (name.length + 1)
    else .strayEquals

/-- What starts at the character `c`, which is not blank, given the characters after it. -/
def scan (c : Char) (rest : List Char) : Scan :=
  if c = ';' then .token .semicolon 0
  else if c = ',' then .token .comma 0
  else if c = '(' then .token .openParen 0
  else if c = ')' then .token .closeParen 0
  else if c = '=' then scanOperator rest
  else if c = '!' ∧ rest.head? = some '=' then .token (.equality .notEqual) 1
  else if c = '\'' then
    match readQuoted? rest with
    | some (text, n) => .token (.quoted (String.ofList text)) n
    | none => .unterminated
  else
    let more := takeWord rest
    .token (.word (String.ofList (c :: more))) more.length

end Token

/-- A place in a text that is being split into tokens. -/
structure Lexer where
  /-- The characters that are left. -/
  rest : List Char
  /-- The number of characters read so far. -/
  position : Nat

namespace Lexer

/-- The lexer at the start of a text. -/
def ofString (text : String) : Lexer := ⟨text.toList, 0⟩

/-- The lexer `n` characters further on. -/
def advance (lx : Lexer) (n : Nat) : Lexer := ⟨lx.rest.drop n, lx.position + n⟩

/-- The lexer at the next character that is not blank. -/
def skipBlanks (lx : Lexer) : Lexer := lx.advance (lx.rest.takeWhile Text.isBlank).length

/-- The next token or the fault found in its place, and the lexer after it. -/
def next (lx : Lexer) : Except SyntaxError PlacedToken × Lexer :=
  let here := lx.skipBlanks
  match here.rest with
  | [] => (.ok ⟨.endOfInput, here.position⟩, here)
  | c :: cs =>
    match Token.scan c cs with
    | .token t more => (.ok ⟨t, here.position⟩, here.advance (more + 1))
    | .strayEquals => (.error (.unexpected "'='" here.position), here)
    | .unterminated => (.error (.unterminatedText here.position), here.advance here.rest.length)

/-- Skipping blanks leaves no more characters than there were. -/
theorem length_rest_skipBlanks_le (lx : Lexer) : lx.skipBlanks.rest.length ≤ lx.rest.length := by
  simp [skipBlanks, advance]

/-- A token other than the end of input takes at least one character. -/
theorem length_rest_lt_of_next {lx after : Lexer} {t : PlacedToken}
    (h : lx.next = (.ok t, after)) (ht : t.token ≠ .endOfInput) :
    after.rest.length < lx.rest.length := by
  have hskip := lx.length_rest_skipBlanks_le
  unfold next at h
  simp only at h
  cases hrest : lx.skipBlanks.rest with
  | nil =>
    simp only [hrest, Prod.mk.injEq, Except.ok.injEq] at h
    exact absurd (h.1 ▸ rfl) ht
  | cons c cs =>
    rw [hrest] at h hskip
    simp only at h
    cases hscan : Token.scan c cs with
    | token t more =>
      simp only [hscan, Prod.mk.injEq] at h
      rw [← h.2]
      simp only [advance, hrest, List.drop_succ_cons, List.length_drop, List.length_cons] at hskip ⊢
      omega
    | strayEquals => simp [hscan] at h
    | unterminated => simp [hscan] at h

/-- All tokens up to the end of input, or the first fault. -/
def tokens (lx : Lexer) : Except SyntaxError (List PlacedToken) :=
  match h : lx.next with
  | (.error e, _) => .error e
  | (.ok t, after) =>
    if ht : t.token = .endOfInput then .ok [t]
    else
      have := length_rest_lt_of_next h ht
      match after.tokens with
      | .error e => .error e
      | .ok ts => .ok (t :: ts)
termination_by lx.rest.length

/-- One round of the loop over the tokens of a text. -/
theorem tokens_eq (lx : Lexer) :
    lx.tokens = match lx.next with
      | (.error e, _) => .error e
      | (.ok t, after) =>
        if t.token = .endOfInput then .ok [t]
        else match after.tokens with
          | .error e => .error e
          | .ok ts => .ok (t :: ts) := by
  rw [tokens]
  split
  next h => simp only [h]
  next h => simp only [h, dite_eq_ite]

end Lexer

/-- The tokens of a text, the last of them the end of input. -/
def Token.lex (text : String) : Except SyntaxError (List PlacedToken) :=
  (Lexer.ofString text).tokens

end FilterQuery
