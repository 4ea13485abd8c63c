import Mathlib.Data.List.TakeWhile
import FilterQuery.Token.Lexer

/-!
# How tokens are spelled

The way from tokens back to text. `Token.Reads t cs rest` says that the characters `cs` are read as
the token `t` where `rest` follows them. There is one lemma for each kind of token, and only a bare
word asks anything of what follows: it must end there (`reads_word`).

`Lays position cs ts` says that the text `cs`, which starts at `position`, consists of the tokens
`ts`, each at its offset, with blanks around them. The lexer finds exactly the tokens that were laid
out (`tokens_of_lays`).
-/

namespace FilterQuery

namespace Token

/-- The characters are read as the token, where `rest` follows them. -/
def Reads (t : Token) (cs rest : List Char) : Prop :=
  ∃ c more, cs = c :: more ∧ Text.isBlank c = false ∧
    scan c (more ++ rest) = .token t more.length

/-- No character is read as the end of input, which is found only where there is none. So the loop
over all tokens ends only where the text does. -/
theorem scan_ne_endOfInput (c : Char) (rest : List Char) (n : Nat) :
    scan c rest ≠ .token .endOfInput n := by
  have hoperator : scanOperator rest ≠ .token .endOfInput n := by
    unfold scanOperator
    split
    · simp
    · simp only
      split <;> simp
  unfold scan
  repeat' split
  · simp
  · simp
  · simp
  · simp
  · exact hoperator
  · simp
  · simp
  · simp
  · simp

theorem Reads.ne_endOfInput {t : Token} {cs rest : List Char} (h : t.Reads cs rest) :
    t ≠ .endOfInput := by
  rintro rfl
  obtain ⟨c, more, -, -, hscan⟩ := h
  exact scan_ne_endOfInput _ _ _ hscan

/-! ## Signs and operators -/

/-- A semicolon is a token of its own, whatever follows it. The other signs are as well, so nothing
is asked of what stands behind them. -/
theorem reads_semicolon (rest : List Char) : Reads .semicolon [';'] rest :=
  ⟨';', [], rfl, by decide, rfl⟩

theorem reads_comma (rest : List Char) : Reads .comma [','] rest :=
  ⟨',', [], rfl, by decide, rfl⟩

theorem reads_openParen (rest : List Char) : Reads .openParen ['('] rest :=
  ⟨'(', [], rfl, by decide, rfl⟩

theorem reads_closeParen (rest : List Char) : Reads .closeParen [')'] rest :=
  ⟨')', [], rfl, by decide, rfl⟩

/-- Both equality operators are read from their two signs, whatever follows. -/
theorem reads_equality (op : Equality) (rest : List Char) :
    Reads (.equality op) op.symbol.toList rest := by
  cases op with
  | equal => exact ⟨'=', ['='], rfl, by decide, rfl⟩
  | notEqual => exact ⟨'!', ['='], rfl, by decide, rfl⟩

/-- A name of letters between two equals signs is an operator. -/
theorem reads_comparison {name : String} (hne : name.toList ≠ [])
    (hname : ∀ c ∈ name.toList, isNameChar c = true) (rest : List Char) :
    Reads (.comparison name) ('=' :: (name.toList ++ ['='])) rest := by
  refine ⟨'=', name.toList ++ ['='], rfl, by decide, ?_⟩
  have hstop : isNameChar '=' = false := by decide
  have htake : (name.toList ++ '=' :: rest).takeWhile isNameChar = name.toList := by
    rw [List.takeWhile_append_of_pos hname, List.takeWhile_cons_of_neg (by simp [hstop]),
      List.append_nil]
  have hdrop : (name.toList ++ '=' :: rest).dropWhile isNameChar = '=' :: rest := by
    rw [List.dropWhile_append_of_pos hname, List.dropWhile_cons_of_neg (by simp [hstop])]
  have hscan : scan '=' (name.toList ++ '=' :: rest) = scanOperator (name.toList ++ '=' :: rest) :=
    rfl
  rw [List.append_assoc, List.singleton_append, hscan]
  -- the name starts with a letter, so this is not `==`
  unfold scanOperator
  split
  · next heq =>
    obtain ⟨c, cs, hcs⟩ := List.exists_cons_of_ne_nil hne
    rw [hcs] at heq hname
    have hc : c = '=' := (List.cons.inj heq).1
    have := hname c List.mem_cons_self
    rw [hc, hstop] at this
    cases this
  · simp only [htake, hdrop, List.head?_cons, BEq.rfl, Bool.and_true,
      String.ofList_toList, List.length_append, List.length_singleton]
    simp [hne]

/-! ## Quoted texts -/

/-- A character of a quoted text; a quote and a backslash are written after a backslash. -/
def escapeChar (c : Char) : List Char := if c = '\'' ∨ c = '\\' then ['\\', c] else [c]

/-- A text in quotes. -/
def quote (text : String) : List Char := '\'' :: (text.toList.flatMap escapeChar ++ ['\''])

theorem readQuoted?_cons {c : Char} (hquote : c ≠ '\'') (hslash : c ≠ '\\') (rest : List Char) :
    readQuoted? (c :: rest) = (readQuoted? rest).map fun (text, n) => (c :: text, n + 1) := by
  rw [readQuoted?]
  · exact hquote
  · intro _ _ h
    exact absurd h hslash

/-- Reading takes the backslashes away again, and stops at the first quote without one. -/
theorem readQuoted?_escape (text rest : List Char) :
    readQuoted? (text.flatMap escapeChar ++ '\'' :: rest) =
      some (text, (text.flatMap escapeChar).length + 1) := by
  induction text with
  | nil => rfl
  | cons c text ih =>
    rw [List.flatMap_cons, List.append_assoc]
    -- an escaped character is two, of which the backslash is dropped again
    by_cases hc : c = '\'' ∨ c = '\\'
    · have hesc : escapeChar c = ['\\', c] := if_pos hc
      simp [hesc, readQuoted?, ih, hc]
    · have hesc : escapeChar c = [c] := if_neg hc
      obtain ⟨hquote, hslash⟩ := not_or.1 hc
      rw [hesc, List.singleton_append, readQuoted?_cons hquote hslash, ih]
      simp

/-- Every text can be quoted, and it is read back from its quotation. -/
theorem reads_quoted (text : String) (rest : List Char) :
    Reads (.quoted text) (quote text) rest := by
  refine ⟨'\'', _, rfl, by decide, ?_⟩
  have hread := readQuoted?_escape text.toList rest
  rw [List.append_assoc, List.singleton_append]
  simp [scan, hread]

/-! ## Bare words -/

/-- A character that may stand anywhere in a bare word: neither a delimiter nor a blank. -/
def isBare (c : Char) : Bool := !isDelimiter c && !Text.isBlank c

theorem isBare_iff {c : Char} :
    isBare c = true ↔ isDelimiter c = false ∧ Text.isBlank c = false := by
  simp [isBare]

/-- What has to hold of a text to be a bare word: it is not empty, its characters are bare, and it
does not start like a quoted text. -/
structure IsWord (cs : List Char) : Prop where
  ne_nil : cs ≠ []
  bare : ∀ c ∈ cs, isBare c = true
  head_ne_quote : cs.head? ≠ some '\''

/-- A bare character ends a word only if it is an exclamation mark before an equals sign. -/
theorem endsWord_eq_false {c : Char} (hc : isBare c = true) {after : List Char}
    (hafter : c = '!' → after.head? ≠ some '=') : endsWord c after = false := by
  obtain ⟨hdelimiter, hblank⟩ := isBare_iff.1 hc
  by_cases hmark : c = '!'
  · simp [endsWord, hdelimiter, hblank, hafter hmark]
  · simp [endsWord, hdelimiter, hblank, hmark]

/-- A text of bare characters does not start with an equals sign. -/
theorem head?_append_ne_equals {cs rest : List Char} (hbare : ∀ c ∈ cs, isBare c = true)
    (hne : cs ≠ []) : (cs ++ rest).head? ≠ some '=' := by
  obtain ⟨c, cs, rfl⟩ := List.exists_cons_of_ne_nil hne
  have hc := hbare c List.mem_cons_self
  intro h
  have : c = '=' := Option.some.inj h
  rw [this] at hc
  exact absurd hc (by decide)

/-- A word goes on to its last character and stops there, if it ends there and the equals sign of an
operator does not take its exclamation mark away. -/
theorem takeWord_append {cs rest : List Char} (hbare : ∀ c ∈ cs, isBare c = true)
    (hrest : takeWord rest = []) (hmark : rest.head? = some '=' → cs.getLast? ≠ some '!') :
    takeWord (cs ++ rest) = cs := by
  induction cs with
  | nil => exact hrest
  | cons c cs ih =>
    have hbare' : ∀ d ∈ cs, isBare d = true := fun d hd => hbare d (List.mem_cons_of_mem c hd)
    have hgo : endsWord c (cs ++ rest) = false := by
      apply endsWord_eq_false (hbare c List.mem_cons_self)
      rintro rfl
      -- an exclamation mark is followed by `rest` or by a bare character
      cases cs with
      | nil => exact fun hhead => hmark hhead rfl
      | cons d cs => exact head?_append_ne_equals hbare' (by simp)
    have hmark' : rest.head? = some '=' → cs.getLast? ≠ some '!' := by
      intro hhead hlast
      apply hmark hhead
      rw [List.getLast?_cons, hlast]
      rfl
    rw [List.cons_append, takeWord, hgo, ih hbare' hmark']
    simp

/-- A word is read as itself where it ends. An exclamation mark at its end must not be followed by
an equals sign, which would make an operator of the two. -/
theorem reads_word {cs rest : List Char} (hword : IsWord cs) (hrest : takeWord rest = [])
    (hmark : rest.head? = some '=' → cs.getLast? ≠ some '!') :
    Reads (.word (String.ofList cs)) cs rest := by
  obtain ⟨c, more, rfl⟩ := List.exists_cons_of_ne_nil hword.ne_nil
  have hc := hword.bare c List.mem_cons_self
  obtain ⟨hdelimiter, hblank⟩ := isBare_iff.1 hc
  have hquote : c ≠ '\'' := fun h => hword.head_ne_quote (by rw [h]; rfl)
  -- the whole word and its tail are both taken to their ends
  have hwhole := takeWord_append hword.bare hrest hmark
  have hgo : endsWord c (more ++ rest) = false := by
    by_contra hstop
    rw [List.cons_append, takeWord, if_pos (by simpa using hstop)] at hwhole
    cases hwhole
  rw [List.cons_append, takeWord, hgo] at hwhole
  have hmore : takeWord (more ++ rest) = more := (List.cons.inj hwhole).2
  have hmark' : ¬ (c = '!' ∧ (more ++ rest).head? = some '=') := by
    rintro ⟨rfl, hhead⟩
    simp [endsWord, hhead] at hgo
  refine ⟨c, more, rfl, hblank, ?_⟩
  simp only [isDelimiter, Bool.or_eq_false_iff, beq_eq_false_iff_ne] at hdelimiter
  obtain ⟨⟨⟨⟨h1, h2⟩, h3⟩, h4⟩, h5⟩ := hdelimiter
  rw [scan, if_neg h1, if_neg h2, if_neg h3, if_neg h4, if_neg h5, if_neg hmark', if_neg hquote,
    hmore]

end Token

/-! ## Texts -/

/-- The text, which starts at the given position, consists of the tokens, each at its offset, and of
blanks around them. -/
inductive Lays : Nat → List Char → List PlacedToken → Prop where
  | blanks {position : Nat} {w : List Char} (hw : ∀ c ∈ w, Text.isBlank c = true) :
      Lays position w []
  | token {position : Nat} {w cs rest : List Char} {t : Token} {ts : List PlacedToken}
      (hw : ∀ c ∈ w, Text.isBlank c = true) (ht : t.Reads cs rest)
      (hrest : Lays (position + w.length + cs.length) rest ts) :
      Lays position (w ++ cs ++ rest) (⟨t, position + w.length⟩ :: ts)

/-- One more blank in front moves the tokens and changes nothing else. -/
theorem Lays.blank {position : Nat} {c : Char} {cs : List Char} {ts : List PlacedToken}
    (hc : Text.isBlank c = true) (h : Lays (position + 1) cs ts) : Lays position (c :: cs) ts := by
  have hcons {w : List Char} (hw : ∀ d ∈ w, Text.isBlank d = true) :
      ∀ d ∈ c :: w, Text.isBlank d = true := by
    simpa [hc] using hw
  -- `position + 1` is no index to split the cases on
  generalize hstart : position + 1 = start at h
  cases h with
  | blanks hw => exact .blanks (hcons hw)
  | @token _ w cs rest t ts hw ht hrest =>
    have hlen : start + w.length = position + (c :: w).length := by
      rw [List.length_cons]; omega
    rw [hlen] at hrest ⊢
    exact .token (hcons hw) ht hrest

namespace Lexer

/-- Where only blanks are left, the next token is the end of input, behind the blanks. -/
theorem next_blanks {w : List Char} (hw : ∀ c ∈ w, Text.isBlank c = true) (position : Nat) :
    next ⟨w, position⟩ = (.ok ⟨.endOfInput, position + w.length⟩, ⟨[], position + w.length⟩) := by
  have htake : w.takeWhile Text.isBlank = w := List.takeWhile_eq_self_iff.2 hw
  simp [next, skipBlanks, advance, htake]

/-- The next token is the one that is spelled behind the blanks, and the lexer stands behind it. The
blanks are those in front of the token; blanks behind it are left for the next call. -/
theorem next_reads {w cs rest : List Char} {t : Token} (hw : ∀ c ∈ w, Text.isBlank c = true)
    (ht : t.Reads cs rest) (position : Nat) :
    next ⟨w ++ cs ++ rest, position⟩ =
      (.ok ⟨t, position + w.length⟩, ⟨rest, position + w.length + cs.length⟩) := by
  obtain ⟨c, more, rfl, hc, hscan⟩ := ht
  have htake : (w ++ (c :: more) ++ rest).takeWhile Text.isBlank = w := by
    rw [List.append_assoc, List.takeWhile_append_of_pos hw, List.cons_append,
      List.takeWhile_cons_of_neg (by simp [hc]), List.append_nil]
  simp only [next, skipBlanks, advance, htake]
  rw [List.append_assoc, List.drop_left, List.cons_append]
  simp [hscan, Nat.add_assoc]

/-- The lexer finds the tokens that were laid out, and the end of input behind them. It is proved
along the layout, one call for each token and one for the end. -/
theorem tokens_of_lays {position : Nat} {cs : List Char} {ts : List PlacedToken}
    (h : Lays position cs ts) :
    tokens ⟨cs, position⟩ = .ok (ts ++ [⟨.endOfInput, position + cs.length⟩]) := by
  induction h with
  | blanks hw =>
    rw [tokens_eq, next_blanks hw]
    rfl
  | @token position w cs rest t ts hw ht _ ih =>
    rw [tokens_eq, next_reads hw ht]
    simp only [ih, if_neg ht.ne_endOfInput, List.length_append, List.cons_append]
    rw [Nat.add_assoc, Nat.add_assoc, ← Nat.add_assoc w.length]

end Lexer

end FilterQuery
