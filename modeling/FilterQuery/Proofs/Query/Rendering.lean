import FilterQuery.Proofs.Literal.Typing
import FilterQuery.Proofs.Query.Recognition
import FilterQuery.Proofs.Query.WellFormed

/-!
# Written queries are read back

A tree is written with a group around every operand. `Query.Renders q text` says that `text` is such
a writing of `q`; it is a relation, since a floating-point number may be written in any way that is
read back as it.

The text of a phrase never stands alone: what follows it decides where its last word ends. So the
lemmas are about a text with anything behind it that ends a word (`Closing`), and `Lexes cs ts` says
that the characters then lie in front of it as the tokens `ts`. Texts that lex are put together by
`Lexes.append`, and the tokens of a written tree derive the tree (`Renders.readsBack`), with as many
groups inside one another as the tree is high.

Main statement: `Query.parse_of_renders`.
-/

namespace FilterQuery

open Grammar

/-! ## Writing -/

namespace Literal

/-- The texts of a single value. A floating-point number may have any text that is read back as
it. -/
inductive RendersSingle : Literal → String → Prop where
  | bool (b : Bool) : RendersSingle (.bool b) (if b then "true" else "false")
  | integer (n : Int) : RendersSingle (.number (.integer n)) (Number.writeInt n)
  | float {x : Binary64} {text : String} (hx : ofWord text = .number (.float x)) :
      RendersSingle (.number (.float x)) text
  | text (s : String) : RendersSingle (.text s) (String.ofList (Token.quote s))

/-- The texts of values separated by commas. -/
inductive RendersItems : List Literal → String → Prop where
  | last {v : Literal} {text : String} (hv : RendersSingle v text) : RendersItems [v] text
  | more {v : Literal} {vs : List Literal} {text rest : String} (hv : RendersSingle v text)
      (hvs : RendersItems vs rest) : RendersItems (v :: vs) (text ++ "," ++ rest)

/-- The texts of a value: a single one, or a list in parentheses. -/
inductive Renders : Literal → String → Prop where
  | single {v : Literal} {text : String} (hv : RendersSingle v text) : Renders v text
  | list {vs : List Literal} {text : String} (hvs : RendersItems vs text) :
      Renders (.list vs) ("(" ++ text ++ ")")

end Literal

/-- The texts of a tree: groups around the operands of a join, and a blank between the selector and
the operator of a constraint. -/
inductive Query.Renders : Query → String → Prop where
  | or {l r : Query} {a b : String} (hl : Renders l a) (hr : Renders r b) :
      Renders (.or l r) ("(" ++ a ++ "),(" ++ b ++ ")")
  | and {l r : Query} {a b : String} (hl : Renders l a) (hr : Renders r b) :
      Renders (.and l r) ("(" ++ a ++ ");(" ++ b ++ ")")
  | present (s : Selector) : Renders (.present s) s.path
  | equality (s : Selector) (op : Equality) {v : Literal} {text : String} (hv : v.Renders text) :
      Renders (.equality s op v) (s.path ++ " " ++ op.symbol ++ text)
  | comparison (s : Selector) (op : Comparison) {v : Literal} {text : String}
      (hv : v.RendersSingle text) :
      Renders (.comparison s op v) (s.path ++ " " ++ op.symbol ++ text)

/-! ## Texts that lex whatever closes them -/

/-- A word ends before this text, also one that ends in an exclamation mark. -/
def Closing (rest : List Char) : Prop :=
  ∀ c ∈ rest.head?, c ≠ '=' ∧ (Token.isDelimiter c || Text.isBlank c) = true

theorem closing_nil : Closing [] := fun _ hc => nomatch hc

/-- Every delimiter but the equals sign ends a word, and so does a blank. -/
theorem closing_cons {c : Char} {rest : List Char} (hne : c ≠ '=')
    (hc : (Token.isDelimiter c || Text.isBlank c) = true) : Closing (c :: rest) := by
  intro d hd
  obtain rfl : c = d := Option.some.inj hd
  exact ⟨hne, hc⟩

theorem Closing.takeWord {rest : List Char} (h : Closing rest) : Token.takeWord rest = [] := by
  cases rest with
  | nil => rfl
  | cons c rest =>
    obtain ⟨-, hc⟩ := h c rfl
    have hend : Token.endsWord c rest = true := by
      rcases Bool.or_eq_true_iff.1 hc with hc | hc <;> simp [Token.endsWord, hc]
    rw [Token.takeWord, if_pos hend]

/-- In front of a closing text, a word is read as a whole. An exclamation mark at its end stays with
it, since no equals sign follows. -/
theorem Closing.reads_word {w : String} (hw : Token.IsWord w.toList) {rest : List Char}
    (h : Closing rest) : (Token.word w).Reads w.toList rest := by
  have hmark : rest.head? = some '=' → w.toList.getLast? ≠ some '!' := by
    intro hhead
    exact absurd rfl (h '=' hhead).1
  have := Token.reads_word hw h.takeWord hmark
  rwa [String.ofList_toList] at this

/-- Whatever closes the characters, they lie in front of it as the tokens. -/
def Lexes (cs : List Char) (ts : List Token) : Prop :=
  ∀ position rest us, Closing rest → Lays (position + cs.length) rest us →
    ∃ placed, placed.map PlacedToken.token = ts ∧ Lays position (cs ++ rest) (placed ++ us)

namespace Lexes

theorem single {t : Token} {cs : List Char} (h : ∀ rest, Closing rest → t.Reads cs rest) :
    Lexes cs [t] := by
  intro position rest us hrest hlays
  exact ⟨[⟨t, position⟩], rfl, .token (List.forall_mem_nil _) (h rest hrest) hlays⟩

/-- Two texts side by side, where the second one closes the first. The condition is the only thing
that has to be checked when texts are put together. -/
theorem append {cs ds : List Char} {ts us : List Token} (h : Lexes cs ts) (h' : Lexes ds us)
    (hclosing : ∀ rest, Closing rest → Closing (ds ++ rest)) : Lexes (cs ++ ds) (ts ++ us) := by
  intro position rest vs hrest hlays
  rw [List.length_append, ← Nat.add_assoc] at hlays
  -- from the back: what follows `ds` closes it, and `ds` closes `cs`
  obtain ⟨placed', hplaced', hlays'⟩ := h' (position + cs.length) rest vs hrest hlays
  obtain ⟨placed, hplaced, hlays⟩ := h position (ds ++ rest) (placed' ++ vs)
    (hclosing rest hrest) hlays'
  refine ⟨placed ++ placed', ?_, ?_⟩
  · rw [List.map_append, hplaced, hplaced']
  · rwa [List.append_assoc, List.append_assoc]

/-- A token that is read as such before anything. Signs, operators and quoted texts are of this
kind; words are not. -/
theorem cons {t : Token} {cs ds : List Char} {us : List Token} (ht : ∀ rest, t.Reads cs rest)
    (h : Lexes ds us) : Lexes (cs ++ ds) (t :: us) := by
  intro position rest vs hrest hlays
  rw [List.length_append, ← Nat.add_assoc] at hlays
  obtain ⟨placed, hplaced, hlays⟩ := h (position + cs.length) rest vs hrest hlays
  refine ⟨⟨t, position⟩ :: placed, by rw [List.map_cons, hplaced], ?_⟩
  rw [List.append_assoc]
  exact .token (List.forall_mem_nil _) (ht _) hlays

theorem blank {cs : List Char} {ts : List Token} (h : Lexes cs ts) : Lexes (' ' :: cs) ts := by
  intro position rest us hrest hlays
  rw [List.length_cons, Nat.add_comm cs.length, ← Nat.add_assoc] at hlays
  obtain ⟨placed, hplaced, hlays⟩ := h (position + 1) rest us hrest hlays
  exact ⟨placed, hplaced, .blank (by decide) hlays⟩

/-- Parentheses around a text become tokens of their own, since the last one closes what is inside.
-/
theorem parens {cs : List Char} {ts : List Token} (h : Lexes cs ts) :
    Lexes ('(' :: (cs ++ [')'])) (.openParen :: (ts ++ [.closeParen])) := by
  have hclose : Lexes [')'] [.closeParen] := .single fun rest _ => Token.reads_closeParen rest
  refine .cons Token.reads_openParen (h.append hclose fun rest _ => ?_)
  exact closing_cons (by decide) (by decide)

/-- A text that lexes is split into its tokens by the lexer. The end of the text closes it, so
nothing is asked of what follows. -/
theorem lex {text : String} {ts : List Token} (h : Lexes text.toList ts) :
    ∃ placed endOffset, placed.map PlacedToken.token = ts ∧
      Token.lex text = .ok (placed ++ [⟨.endOfInput, endOffset⟩]) := by
  obtain ⟨placed, hplaced, hlays⟩ := h 0 [] [] closing_nil (.blanks (List.forall_mem_nil _))
  rw [List.append_nil, List.append_nil] at hlays
  exact ⟨placed, _, hplaced, Lexer.tokens_of_lays hlays⟩

end Lexes

/-! ## Values -/

namespace Literal

/-- The characters of a number can all stand in a word: none is a delimiter and none is a blank. -/
theorem isBare_of_isNumeral {c : Char} (h : isNumeral c = true) : Token.isBare c = true := by
  simp only [isNumeral, Bool.or_eq_true, beq_iff_eq] at h
  -- figures are many, so they are told apart from delimiters and blanks by their codes; the signs
  -- and the point are decided one by one
  rcases h with ((h | rfl) | rfl) | rfl
  · have hdelimiter : Token.isDelimiter c = false := by
      by_contra hc
      simp only [Bool.not_eq_false, Token.isDelimiter, Bool.or_eq_true, beq_iff_eq] at hc
      rcases hc with (((rfl | rfl) | rfl) | rfl) | rfl <;> exact absurd h (by decide)
    have hblank : Text.isBlank c = false := by
      by_contra hc
      have hblank : Text.isBlank c = true := by simpa using hc
      obtain ⟨r, hr, hlow, hhigh⟩ := Text.CharClass.exists_range_of_covers hblank
      -- the figures stand between the second and the third range of blanks
      have hfigure : 48 ≤ c.toNat ∧ c.toNat ≤ 57 := by
        simp only [Char.isDigit, Bool.and_eq_true, decide_eq_true_eq, ge_iff_le,
          UInt32.le_iff_toNat_le] at h
        exact h
      simp only [Text.blanks, List.mem_cons, List.not_mem_nil, or_false] at hr
      rcases hr with rfl | rfl | rfl | rfl | rfl | rfl | rfl | rfl | rfl | rfl <;> omega
    exact Token.isBare_iff.2 ⟨hdelimiter, hblank⟩
  · decide
  · decide
  · decide

/-- A text that is read as a number can be written as a word. So any notation will do for a
floating-point number, and no delimiter can hide in it. -/
theorem isWord_of_ofWord_number {w : String} {n : Number} (h : ofWord w = .number n) :
    Token.IsWord w.toList := by
  obtain ⟨hne, hnumeral⟩ := isNumeral_of_readNumber? (readNumber?_of_ofWord h)
  refine ⟨hne, fun c hc => isBare_of_isNumeral (hnumeral c hc), fun hhead => ?_⟩
  have := hnumeral _ (List.mem_of_head? hhead)
  exact absurd this (by decide)

/-- The text of a single value is one token, which denotes the value. A truth value and a number are
words, and a text is quoted, so that it is never taken for one of them. -/
theorem RendersSingle.lexes {v : Literal} {text : String} (h : v.RendersSingle text)
    (hv : v.IsSingle) : ∃ t, Scalar t v ∧ Lexes text.toList [t] := by
  have hnumber {w : String} {n : Number} (hw : ofWord w = .number n) :
      ∃ t, Scalar t (.number n) ∧ Lexes w.toList [t] :=
    ⟨.word w, hw ▸ .word w, .single fun _ hrest => hrest.reads_word (isWord_of_ofWord_number hw)⟩
  cases h with
  | bool b =>
    refine ⟨.word (if b then "true" else "false"), ?_, .single fun _ hrest => hrest.reads_word ?_⟩
    · cases b
      · exact .word "false"
      · exact .word "true"
    · cases b <;> exact ⟨by decide, List.all_eq_true.1 (by decide), by decide⟩
  | integer n => exact hnumber (ofWord_writeInt hv.1 hv.2)
  | float hx => exact hnumber hx
  | text s =>
    refine ⟨.quoted s, .quoted s, .single fun rest _ => ?_⟩
    rw [String.toList_ofList]
    exact Token.reads_quoted s rest

theorem RendersItems.lexes {vs : List Literal} {text : String} (h : RendersItems vs text)
    (hvs : ∀ v ∈ vs, v.IsSingle) : ∃ ts, Items ts vs ∧ Lexes text.toList ts := by
  induction h with
  | last hv =>
    obtain ⟨t, ht, hlex⟩ := hv.lexes (hvs _ List.mem_cons_self)
    exact ⟨[t], .last ht, hlex⟩
  | more hv _ ih =>
    obtain ⟨t, ht, hlex⟩ := hv.lexes (hvs _ List.mem_cons_self)
    obtain ⟨ts, hts, hlexs⟩ := ih fun v hv => hvs v (List.mem_cons_of_mem _ hv)
    refine ⟨t :: .comma :: ts, .more ht hts, ?_⟩
    rw [String.toList_append, String.toList_append, List.append_assoc]
    refine hlex.append (hlexs.cons Token.reads_comma) fun rest _ => ?_
    exact closing_cons (by decide) (by decide)

/-- The text of a well-formed value lexes into tokens that denote it. -/
theorem Renders.lexes {v : Literal} {text : String} (h : v.Renders text) (hv : v.WellFormed) :
    ∃ ts, Value ts v ∧ Lexes text.toList ts := by
  cases h with
  | single h =>
    have hv' : v.IsSingle := by
      cases h <;> exact hv
    obtain ⟨t, ht, hlex⟩ := h.lexes hv'
    exact ⟨[t], .scalar ht, hlex⟩
  | list h =>
    obtain ⟨ts, hts, hlex⟩ := h.lexes hv.2
    refine ⟨.openParen :: (ts ++ [.closeParen]), .list hts, ?_⟩
    rw [String.toList_append, String.toList_append, List.append_assoc]
    exact hlex.parens

end Literal

/-! ## Trees -/

namespace Query

/-- The path of a selector, a blank, an operator and a value lex one after another. The blank ends
the path, also one that ends in an exclamation mark before an equals sign. -/
theorem lexes_constraint {s : Selector} (hs : s.WellFormed) {op : Token} {cs ds : List Char}
    (hop : ∀ rest, op.Reads cs rest) {ts : List Token} (h : Lexes ds ts) :
    Lexes (s.path.toList ++ ' ' :: (cs ++ ds)) (.word s.path :: op :: ts) := by
  have hpath : Lexes s.path.toList [.word s.path] :=
    .single fun _ hrest => hrest.reads_word hs.isWord
  exact hpath.append (.blank (.cons hop h)) fun _ _ => closing_cons (by decide) (by decide)

/-- The text lexes into tokens that derive the tree, with groups inside one another as its joins
are. -/
def ReadsBack (text : String) (q : Query) : Prop :=
  ∃ ts, Lexes text.toList ts ∧ Derives .alternatives ts q ∧ groupDepth ts = q.depth - 1

/-- Two groups with a separator between them are read back as the join that the separator stands
for. -/
theorem readsBack_joined {l r join : Query} {a b : String} {separator : Token} {c : Char}
    (hl : ReadsBack a l) (hr : ReadsBack b r) (hc : ∀ rest, separator.Reads [c] rest)
    (hseparator : c = ',' ∧ separator = .comma ∨ c = ';' ∧ separator = .semicolon)
    (hjoin : ∀ {ts us}, Derives .operand ts l → Derives .operand us r →
      Derives .alternatives (ts ++ separator :: us) join)
    (hdepth : join.depth = 1 + max l.depth r.depth) :
    ReadsBack ("(" ++ a ++ ")" ++ String.ofList [c] ++ "(" ++ b ++ ")") join := by
  obtain ⟨ts, hlex, hl, hdepthl⟩ := hl
  obtain ⟨us, hlex', hr, hdepthr⟩ := hr
  have hclosing (rest : List Char) : Closing (c :: rest) := by
    rcases hseparator with ⟨rfl, -⟩ | ⟨rfl, -⟩ <;> exact closing_cons (by decide) (by decide)
  have hlexes := hlex.parens.append (.cons hc hlex'.parens) fun _ _ => hclosing _
  refine ⟨_, by simpa using hlexes, hjoin (.group hl) (.group hr), ?_⟩
  -- each side is a group, one deeper than the side itself
  have hlpos := l.depth_pos
  have hrpos := r.depth_pos
  rw [groupDepth_append (.group hl) (hseparator.imp And.right And.right), groupDepth_group hl,
    groupDepth_group hr, hdepth]
  omega

/-- The text of a well-formed tree is read back as this tree, by induction on the way it was
written. -/
theorem Renders.readsBack {q : Query} {text : String} (h : q.Renders text) (hq : q.WellFormed) :
    ReadsBack text q := by
  induction h with
  | @or l r a b _ _ ihl ihr =>
    have hjoin {ts us} (hl : Derives .operand ts l) (hr : Derives .operand us r) :=
      Derives.or (.factor hl) (hr.ofOperand .alternatives)
    have := readsBack_joined (ihl hq.1) (ihr hq.2) Token.reads_comma (.inl ⟨rfl, rfl⟩) hjoin rfl
    simpa [String.append_assoc] using this
  | @and l r a b _ _ ihl ihr =>
    have hjoin {ts us} (hl : Derives .operand ts l) (hr : Derives .operand us r) :=
      Derives.alternative (.and hl (hr.ofOperand .factors))
    have := readsBack_joined (ihl hq.1) (ihr hq.2) Token.reads_semicolon (.inr ⟨rfl, rfl⟩) hjoin rfl
    simpa [String.append_assoc] using this
  | present s =>
    have hs : s.WellFormed := hq
    have hleaf : Constraint [.word s.path] (.present s) := .present hs.ofPath?
    refine ⟨_, .single fun _ hrest => hrest.reads_word hs.isWord,
      (Derives.constraint hleaf).ofOperand _, groupDepth_constraint hleaf⟩
  | equality s op hv =>
    obtain ⟨hs, hv'⟩ := hq
    obtain ⟨ts, hts, hlex⟩ := hv.lexes hv'
    have hleaf := Constraint.equality op hs.ofPath? hts
    refine ⟨_, ?_, (Derives.constraint hleaf).ofOperand _, groupDepth_constraint hleaf⟩
    simpa using lexes_constraint hs (Token.reads_equality op) hlex
  | comparison s op hv =>
    -- the token holds the name of the operator, which leads back to it
    obtain ⟨hs, hop, hv'⟩ := hq
    obtain ⟨t, ht, hlex⟩ := hv.lexes hv'
    have hleaf := Constraint.comparison op.name hs.ofPath? ht
    rw [hop.ofName_name] at hleaf
    have hreads := Token.reads_comparison hop.isNameChar.1 hop.isNameChar.2
    refine ⟨_, ?_, (Derives.constraint hleaf).ofOperand _, groupDepth_constraint hleaf⟩
    simpa [Comparison.symbol] using lexes_constraint hs hreads hlex

/-- **Writing and reading back is the identity.** Every text of a well-formed tree is read as this
tree, if groups may nest as deep as the tree has joins above one another, and there may be as many
constraints as the tree has. -/
theorem parse_of_renders {q : Query} {text : String} {limits : Limits} (hq : q.WellFormed)
    (htext : q.Renders text) (hdepth : q.depth - 1 ≤ limits.depth)
    (hterms : q.selectors.length ≤ limits.terms) : Query.parse text limits = .ok q := by
  obtain ⟨ts, hlex, hderives, hgroups⟩ := htext.readsBack hq
  obtain ⟨placed, endOffset, rfl, hplaced⟩ := hlex.lex
  -- the limits of the parser are about the tokens, whose depth is that of the tree
  have hparse := Parser.parse_of_derives hderives endOffset (hgroups ▸ hdepth) hterms
  rw [Query.parse, hplaced]
  exact hparse

/-- A selector that ends in an exclamation mark, one with a quote in it, a list of a text with both
escapes, a negative integer and a truth value, and a number with a zero that it could do without. -/
theorem parse_of_renders_marks_and_quotes :
    let q : Query :=
      .or (.and (.present ⟨none, "a!"⟩)
          (.equality ⟨some "b'", "c"⟩ .notEqual
            (.list [.text "it's \\", .number (.integer (-5)), .bool true])))
        (.comparison ⟨none, "x"⟩ (.custom "like")
          (.number (.float (.ofScientific true 150 (-2)))))
    let text := "((a!);(b'.c !=('it\\'s \\\\',-5,true))),(x =like=-1.50)"
    q.WellFormed ∧ q.Renders text ∧ Query.parse text ⟨2, 3⟩ = .ok q := by
  intro q text
  have hq : q.WellFormed := by decide +kernel
  have htext : q.Renders text := by
    have hitems := Literal.RendersItems.more (.text "it's \\")
      (.more (.integer (-5)) (.last (.bool true)))
    have hfloat : Literal.ofWord "-1.50" = .number (.float (.ofScientific true 150 (-2))) := by
      rfl
    exact .or (.and (.present _) (.equality _ _ (.list hitems))) (.comparison _ _ (.float hfloat))
  exact ⟨hq, htext, parse_of_renders hq htext (by decide) (by decide)⟩

end Query

end FilterQuery
