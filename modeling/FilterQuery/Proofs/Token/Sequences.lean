import Mathlib.Data.List.Chain
import FilterQuery.Proofs.Token.Spelling

/-!
# Sequences of tokens are read back from their text

Tokens are written one after another, each with blanks of any number in front of it. The lexer finds
the same tokens again, each where its spelling starts, as long as the blanks are not left out between
two tokens whose characters fuse: a word runs on into a word or a quoted text behind it, and an
exclamation mark at its end makes `!=` with an equals sign.

* `Spellable`: the tokens that have a spelling, and `spelling`.
* `Fuses`: the neighbours that need a blank between them. `endsBefore_spelling` says that all other
  neighbours need none, with one case for each kind of token behind a word.
* `SpacedToken.lex_write`: the statement for texts.
-/

namespace FilterQuery

namespace Token

/-! ## One token -/

/-- The characters that a token is written with; the end of input has none. -/
def spelling : Token → List Char
  | word text => text.toList
  | quoted text => quote text
  | equality op => op.symbol.toList
  | comparison name => '=' :: (name.toList ++ ['='])
  | semicolon => [';']
  | comma => [',']
  | openParen => ['(']
  | closeParen => [')']
  | endOfInput => []

/-- The tokens that can be written: a word has to be bare, a name has to consist of letters, and any
text can be quoted. -/
def Spellable : Token → Prop
  | word text => IsWord text.toList
  | comparison name => name.toList ≠ [] ∧ ∀ c ∈ name.toList, isNameChar c = true
  | endOfInput => False
  | _ => True

instance (cs : List Char) : Decidable (IsWord cs) :=
  decidable_of_iff (cs ≠ [] ∧ cs.all isBare = true ∧ cs.head? ≠ some '\'')
    ⟨fun ⟨h1, h2, h3⟩ => ⟨h1, List.all_eq_true.1 h2, h3⟩,
      fun h => ⟨h.ne_nil, List.all_eq_true.2 h.bare, h.head_ne_quote⟩⟩

instance : DecidablePred Spellable
  | word text => inferInstanceAs (Decidable (IsWord text.toList))
  | comparison name =>
    decidable_of_iff (name.toList ≠ [] ∧ name.toList.all isNameChar = true)
      (and_congr_right fun _ => List.all_eq_true)
  | endOfInput => .isFalse id
  | quoted _ | equality _ | semicolon | comma | openParen | closeParen => .isTrue trivial

/-- A token ends where `rest` starts. Only a word asks anything of what follows it. -/
def EndsBefore : Token → List Char → Prop
  | word text, rest => takeWord rest = [] ∧ (rest.head? = some '=' → text.toList.getLast? ≠ some '!')
  | _, _ => True

/-- The spelling of a token is read as the token, where it ends. -/
theorem Spellable.reads {t : Token} {rest : List Char} (ht : t.Spellable)
    (hrest : t.EndsBefore rest) : t.Reads t.spelling rest := by
  cases t with
  | word text =>
    have := reads_word ht hrest.1 hrest.2
    rwa [String.ofList_toList] at this
  | quoted text => exact reads_quoted text rest
  | equality op => exact reads_equality op rest
  | comparison name => exact reads_comparison ht.1 ht.2 rest
  | semicolon => exact reads_semicolon rest
  | comma => exact reads_comma rest
  | openParen => exact reads_openParen rest
  | closeParen => exact reads_closeParen rest
  | endOfInput => exact ht.elim

/-! ## Neighbours -/

/-- The two tokens would be read as something else with nothing between them. -/
def Fuses : Token → Token → Prop
  | word _, word _ => True
  | word _, quoted _ => True
  | word text, equality .equal => text.toList.getLast? = some '!'
  | word text, comparison _ => text.toList.getLast? = some '!'
  | _, _ => False

instance : DecidableRel Fuses
  | word _, word _ | word _, quoted _ => .isTrue trivial
  | word text, equality .equal | word text, comparison _ =>
    inferInstanceAs (Decidable (text.toList.getLast? = some '!'))
  | word _, equality .notEqual | word _, semicolon | word _, comma | word _, openParen
  | word _, closeParen | word _, endOfInput => .isFalse id
  | quoted _, _ | equality _, _ | comparison _, _ | semicolon, _ | comma, _ | openParen, _
  | closeParen, _ | endOfInput, _ => .isFalse id

theorem takeWord_of_endsWord {c : Char} {rest : List Char} (h : endsWord c rest = true) :
    takeWord (c :: rest) = [] := by
  rw [takeWord, if_pos h]

/-- Every token ends before a character other than an equals sign that ends words. The equals sign
is left out because it takes an exclamation mark away from the word. -/
theorem endsBefore_cons (t : Token) {c : Char} {rest : List Char} (hend : endsWord c rest = true)
    (hne : c ≠ '=') : t.EndsBefore (c :: rest) := by
  cases t with
  | word text =>
    refine ⟨takeWord_of_endsWord hend, fun hhead => ?_⟩
    exact absurd (Option.some.inj hhead) hne
  | _ => trivial

theorem endsBefore_blank (t : Token) {c : Char} {rest : List Char} (hc : Text.isBlank c = true) :
    t.EndsBefore (c :: rest) := by
  refine endsBefore_cons t (by simp [endsWord, hc]) ?_
  rintro rfl
  exact absurd hc (by decide)

theorem endsBefore_nil (t : Token) : t.EndsBefore [] := by
  cases t with
  | word text => exact ⟨rfl, nofun⟩
  | _ => trivial

/-- A token ends where a spelling follows it at once, unless the two fuse. -/
theorem endsBefore_spelling {t u : Token} (hu : u.Spellable) (h : ¬ t.Fuses u) (rest : List Char) :
    t.EndsBefore (u.spelling ++ rest) := by
  cases t with
  | word text =>
    -- an equals sign ends every word; it must not take an exclamation mark away from it
    have hequals (cs : List Char) (hmark : text.toList.getLast? ≠ some '!') :
        EndsBefore (.word text) ('=' :: cs) :=
      ⟨takeWord_of_endsWord (by simp [endsWord, isDelimiter]), fun _ => hmark⟩
    cases u with
    | word _ => exact absurd trivial h
    | quoted _ => exact absurd trivial h
    | equality op =>
      cases op with
      | equal => exact hequals _ h
      | notEqual =>
        show EndsBefore (.word text) ('!' :: '=' :: rest)
        exact endsBefore_cons _ (by simp [endsWord]) (by decide)
    | comparison name => exact hequals _ h
    | semicolon => exact endsBefore_cons _ (by simp [endsWord, isDelimiter]) (by decide)
    | comma => exact endsBefore_cons _ (by simp [endsWord, isDelimiter]) (by decide)
    | openParen => exact endsBefore_cons _ (by simp [endsWord, isDelimiter]) (by decide)
    | closeParen => exact endsBefore_cons _ (by simp [endsWord, isDelimiter]) (by decide)
    | endOfInput => exact hu.elim
  | _ => trivial

end Token

/-! ## Sequences -/

/-- A token that can be written, and the blanks in front of it. -/
structure SpacedToken where
  blanks : List Char
  token : Token
  isBlank : ∀ c ∈ blanks, Text.isBlank c = true
  spellable : token.Spellable

namespace SpacedToken

/-- The characters of a sequence of tokens. -/
def write (ts : List SpacedToken) : List Char := ts.flatMap fun t => t.blanks ++ t.token.spelling

/-- The tokens of a sequence that starts at `position`, each where its spelling starts. -/
def place (position : Nat) : List SpacedToken → List PlacedToken
  | [] => []
  | t :: ts =>
    let start := position + t.blanks.length
    ⟨t.token, start⟩ :: place (start + t.token.spelling.length) ts

/-- Tokens that fuse have a blank between them. -/
def KeepsApart (t u : SpacedToken) : Prop := t.token.Fuses u.token → u.blanks ≠ []

instance : DecidableRel KeepsApart := fun t u =>
  inferInstanceAs (Decidable (t.token.Fuses u.token → u.blanks ≠ []))

theorem write_cons (t : SpacedToken) (ts : List SpacedToken) :
    write (t :: ts) = t.blanks ++ t.token.spelling ++ write ts := by
  rw [write, List.flatMap_cons]
  rfl

theorem endsBefore_blanks (t : Token) {w rest : List Char}
    (hw : ∀ c ∈ w, Text.isBlank c = true) (hne : w ≠ []) : t.EndsBefore (w ++ rest) := by
  obtain ⟨c, w, rfl⟩ := List.exists_cons_of_ne_nil hne
  exact t.endsBefore_blank (hw c List.mem_cons_self)

/-- A token of a sequence ends where the rest of the sequence is written, since the next token has a
blank in front of it or does not fuse with it. -/
theorem endsBefore_write {t : SpacedToken} {ts : List SpacedToken} {trailing : List Char}
    (htrailing : ∀ c ∈ trailing, Text.isBlank c = true)
    (hnext : ∀ u ∈ ts.head?, t.KeepsApart u) : t.token.EndsBefore (write ts ++ trailing) := by
  cases ts with
  | nil =>
    by_cases hnil : trailing = []
    · rw [hnil]
      exact t.token.endsBefore_nil
    · show t.token.EndsBefore trailing
      rw [← List.append_nil trailing]
      exact endsBefore_blanks t.token htrailing hnil
  | cons u ts =>
    rw [write_cons, List.append_assoc, List.append_assoc]
    by_cases hnil : u.blanks = []
    · rw [hnil, List.nil_append]
      exact Token.endsBefore_spelling u.spellable (fun hfuses => hnext u rfl hfuses hnil) _
    · exact endsBefore_blanks t.token u.isBlank hnil

/-- A sequence that keeps its tokens apart lays them out. -/
theorem lays_write {ts : List SpacedToken} {trailing : List Char}
    (htrailing : ∀ c ∈ trailing, Text.isBlank c = true) (hgaps : ts.IsChain KeepsApart)
    (position : Nat) : Lays position (write ts ++ trailing) (place position ts) := by
  -- each token ends before what is written behind it, so it is read there
  induction ts generalizing position with
  | nil => exact .blanks htrailing
  | cons t ts ih =>
    obtain ⟨hnext, hgaps⟩ := List.isChain_cons.1 hgaps
    rw [write_cons, List.append_assoc]
    exact .token t.isBlank (t.spellable.reads (endsBefore_write htrailing hnext)) (ih hgaps _)

theorem map_token_place (ts : List SpacedToken) (position : Nat) :
    (place position ts).map PlacedToken.token = ts.map SpacedToken.token := by
  induction ts generalizing position with
  | nil => rfl
  | cons t ts ih => rw [place, List.map_cons, List.map_cons, ih]

/-- With `before` in front of the sequence, every token is spelled at its offset. The text in front
is needed for the induction, as the offsets count from the start of the whole text. -/
theorem spelling_isPrefix_of_mem_place {ts : List SpacedToken} {p : PlacedToken} {before : List Char}
    (hp : p ∈ place before.length ts) (trailing : List Char) :
    p.token.spelling <+: (before ++ (write ts ++ trailing)).drop p.offset := by
  induction ts generalizing before with
  | nil => cases hp
  | cons t ts ih =>
    rw [write_cons, List.append_assoc, List.append_assoc]
    rcases List.mem_cons.1 hp with rfl | hp
    · have hlength : before.length + t.blanks.length = (before ++ t.blanks).length := by
        rw [List.length_append]
      rw [← List.append_assoc before, hlength, List.drop_left]
      exact List.prefix_append _ _
    -- a later token: what is written before it goes to what stands in front
    · have hlength : before.length + t.blanks.length + t.token.spelling.length =
          (before ++ t.blanks ++ t.token.spelling).length := by
        rw [List.length_append, List.length_append]
      rw [hlength] at hp
      have := ih hp
      rwa [List.append_assoc, List.append_assoc] at this

/-- **Tokens are read back from their text.** A sequence of tokens with blanks in front of each of
them and behind the last one, left out only where two neighbours do not fuse, is split into these
tokens and the end of input behind them. Every token has the offset at which its spelling starts,
and the end of input the length of the text. -/
theorem lex_write {ts : List SpacedToken} {trailing : List Char}
    (htrailing : ∀ c ∈ trailing, Text.isBlank c = true) (hgaps : ts.IsChain KeepsApart) :
    let text := String.ofList (write ts ++ trailing)
    Token.lex text = .ok (place 0 ts ++ [⟨.endOfInput, text.length⟩]) ∧
      (place 0 ts).map PlacedToken.token = ts.map SpacedToken.token ∧
      ∀ p ∈ place 0 ts, p.token.spelling <+: text.toList.drop p.offset := by
  intro text
  have htext : text.toList = write ts ++ trailing := String.toList_ofList
  refine ⟨?_, map_token_place ts 0, fun p hp => ?_⟩
  · have hlex := Lexer.tokens_of_lays (lays_write htrailing hgaps 0)
    rw [Token.lex, Lexer.ofString, htext, hlex, Nat.zero_add, ← htext, String.length_toList]
  · rw [htext, ← List.nil_append (write ts ++ trailing)]
    exact spelling_isPrefix_of_mem_place hp trailing

/-- Neighbours that need no blank: operators side by side, one that takes none of the marks of the
word in front of it, and a word behind a quoted text. Only the two words at the end have to be held
apart. -/
theorem lex_write_marks_and_quotes :
    let ts : List SpacedToken := [⟨[], .word "a!", nofun, by decide⟩,
      ⟨[], .equality .notEqual, nofun, trivial⟩, ⟨[], .equality .equal, nofun, trivial⟩,
      ⟨[], .comparison "gt", nofun, by decide⟩,
      ⟨['\t'], .quoted "it's \\", List.all_eq_true.1 rfl, trivial⟩,
      ⟨[], .word "b'", nofun, by decide⟩,
      ⟨[' ', '\n'], .word "c", List.all_eq_true.1 rfl, by decide⟩]
    ts.IsChain KeepsApart ∧ (∀ c ∈ [' '], Text.isBlank c = true) ∧
      Token.lex "a!!====gt=\t'it\\'s \\\\'b' \nc " = .ok [⟨.word "a!", 0⟩,
        ⟨.equality .notEqual, 2⟩, ⟨.equality .equal, 4⟩, ⟨.comparison "gt", 6⟩,
        ⟨.quoted "it's \\", 11⟩, ⟨.word "b'", 21⟩, ⟨.word "c", 25⟩, ⟨.endOfInput, 27⟩] := by
  intro ts
  have hgaps : ts.IsChain KeepsApart := by decide
  have htrailing : ∀ c ∈ [' '], Text.isBlank c = true := List.all_eq_true.1 rfl
  have htext : String.ofList (write ts ++ [' ']) = "a!!====gt=\t'it\\'s \\\\'b' \nc " := by rfl
  have hlex := (lex_write htrailing hgaps).1
  rw [htext] at hlex
  exact ⟨hgaps, htrailing, hlex⟩

end SpacedToken

end FilterQuery
