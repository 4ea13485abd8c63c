import FilterQuery.Proofs.Query.Tally
import FilterQuery.Proofs.Query.WellFormed
import FilterQuery.Proofs.Token.Sequences
import FilterQuery.Proofs.Token.Spans

/-!
# Trees that come from text

A tree that was read from a text is well formed, and its selectors are the words of the text that
stand where a constraint starts. What makes it so is spread over the reader: the lexer ends words at
blanks and signs, a selector is split at its dot, a word is typed, a name is looked up. Each of these
is one lemma here, about a token that the lexer can find (`Occupies.spellable`). The grammar puts
them together, with one case for each of its rules (`Derives.wellFormed`).

`selectorWords` picks the words at which a constraint starts by counting along the tokens, as
`Grammar.tally` does; `selectorWords_of_derives` says that the tree has their selectors, in this
order.
-/

namespace FilterQuery

/-! ## Tokens -/

namespace Token

theorem isBare_of_not_wordStop {c : Char} {rest : List Char} (h : ¬ WordStop (c :: rest)) :
    isBare c = true := by
  have hdelimiter : isDelimiter c = false := by
    by_contra hc
    exact h (.sign (isDelimiter_iff.1 (by simpa using hc)))
  have hblank : Text.isBlank c = false := by
    by_contra hc
    exact h (.blank (by simpa using hc))
  exact isBare_iff.2 ⟨hdelimiter, hblank⟩

/-- A token that stands in a text can be written. For a word this is the point at which its
characters are known: it would have ended at any other. -/
theorem Occupies.spellable {t : Token} {cs rest : List Char} (h : t.Occupies cs rest) :
    t.Spellable := by
  cases h with
  | word hne hquote _ hrun =>
    show IsWord (String.ofList cs).toList
    rw [String.toList_ofList]
    refine ⟨hne, fun c hc => ?_, hquote⟩
    -- the word goes on at each of its characters
    obtain ⟨before, after, rfl⟩ := List.append_of_mem hc
    exact isBare_of_not_wordStop (hrun (c :: after) (List.suffix_append _ _) (by simp))
  | @comparison name _ hne hname =>
    show (String.ofList name).toList ≠ [] ∧ ∀ c ∈ (String.ofList name).toList, isNameChar c = true
    rw [String.toList_ofList]
    exact ⟨hne, hname⟩
  | quoted _ _ | equal _ | notEqual _ | semicolon _ | comma _ | openParen _ | closeParen _ =>
    exact trivial

end Token

/-- All tokens that a text is split into can be written. -/
theorem spellable_of_lays {position : Nat} {cs : List Char} {ts : List PlacedToken}
    (h : Lays position cs ts) : ∀ t ∈ ts, t.token.Spellable := by
  induction h with
  | blanks _ => exact List.forall_mem_nil _
  | token _ ht _ ih => exact List.forall_mem_cons.2 ⟨(Token.occupies_of_reads ht).spellable, ih⟩

/-! ## Selectors, operators and values -/

namespace Selector

/-- The parts of a path that can be read are not empty and hold no dot. Nothing else is asked of
them, so a part may hold blanks and signs if it was not read from a text. -/
theorem segments_of_ofPath? {text : String} {s : Selector} (h : ofPath? text = some s) :
    (s.field ≠ "" ∧ ∀ c ∈ s.field.toList, c ≠ '.') ∧
      ∀ a ∈ s.association, a ≠ "" ∧ ∀ c ∈ a.toList, c ≠ '.' := by
  have hsegment {cs : List Char} (hne : cs ≠ []) (hdot : ∀ c ∈ cs, c ≠ '.') :
      String.ofList cs ≠ "" ∧ ∀ c ∈ (String.ofList cs).toList, c ≠ '.' := by
    rw [String.toList_ofList]
    refine ⟨fun hempty => hne ?_, hdot⟩
    rw [← String.toList_ofList (l := cs), hempty]
    rfl
  have hfirst : ∀ c ∈ text.toList.takeWhile (· != '.'), c ≠ '.' := by
    intro c hc
    simpa using List.mem_takeWhile_imp hc
  -- the cases of the definition: no first part, no dot, and a second part that is empty or has a
  -- dot
  unfold ofPath? at h
  simp only at h
  split at h
  · cases h
  · next hne =>
    rw [List.isEmpty_iff] at hne
    split at h
    · cases h
      refine ⟨hsegment hne hfirst, fun a ha => ?_⟩
      cases ha
    · next second _ =>
      split at h
      · cases h
      · next hsecond =>
        cases h
        simp only [Bool.or_eq_true, List.isEmpty_iff, List.contains_iff_mem, not_or] at hsecond
        refine ⟨hsegment hsecond.1 fun c hc hdot => hsecond.2 (hdot ▸ hc), ?_⟩
        rintro _ ⟨⟩
        exact hsegment hne hfirst

theorem mem_path_of_mem_field {s : Selector} {c : Char} (h : c ∈ s.field.toList) :
    c ∈ s.path.toList := by
  unfold path
  split <;> simp [h]

theorem mem_path_of_mem_association {s : Selector} {a : String} (ha : a ∈ s.association) {c : Char}
    (h : c ∈ a.toList) : c ∈ s.path.toList := by
  have : s.association = some a := ha
  simp [path, this, h]

/-- A word that is read as a selector is read as a well-formed one. The word brings that no
character ends it, and the path brings that its parts have no dots. -/
theorem wellFormed_of_ofPath? {text : String} {s : Selector} (hword : Token.IsWord text.toList)
    (h : ofPath? text = some s) : s.WellFormed := by
  obtain ⟨⟨hne, hdot⟩, hassociation⟩ := segments_of_ofPath? h
  obtain rfl := path_of_ofPath? h
  refine ⟨⟨hne, fun c hc => hword.bare c (mem_path_of_mem_field hc), hdot⟩, fun a ha => ?_,
    hword.head_ne_quote⟩
  obtain ⟨hne', hdot'⟩ := hassociation a ha
  exact ⟨hne', fun c hc => hword.bare c (mem_path_of_mem_association ha hc), hdot'⟩

end Selector

/-- A name of letters is one of the five known operators or a custom operator that cannot be taken
for one of them. -/
theorem Comparison.wellFormed_ofName {name : String} (hne : name.toList ≠ [])
    (hname : ∀ c ∈ name.toList, Token.isNameChar c = true) : (ofName name).WellFormed := by
  -- the five names have operators of their own, and every other name is kept as it is
  by_cases hknown : name ∈ ["gt", "lt", "ge", "le", "isnull"]
  · simp only [List.mem_cons, List.not_mem_nil, or_false] at hknown
    rcases hknown with rfl | rfl | rfl | rfl | rfl <;> exact trivial
  · have hcustom : ofName name = .custom name := by
      simp only [List.mem_cons, List.not_mem_nil, or_false, not_or] at hknown
      obtain ⟨h1, h2, h3, h4, h5⟩ := hknown
      simp [ofName, h1, h2, h3, h4, h5]
    rw [hcustom]
    exact ⟨fun hempty => hne (hempty ▸ rfl), hname, hknown⟩

namespace Literal

/-- A number that is read from a word is within 64 bits or finite, since the reader refuses all
others. -/
theorem isSingle_of_readNumber? {word : List Char} {n : Number} (h : readNumber? word = some n) :
    IsSingle (.number n) := by
  -- the forms of a number: an integer in range, a float that is finite, and neither
  unfold readNumber? at h
  simp only at h
  split at h
  · cases h
  · split at h
    · obtain ⟨hrange, h⟩ := Option.ite_none_right_eq_some.1 h
      cases h
      exact hrange
    · obtain ⟨-, h⟩ := Option.ite_none_right_eq_some.1 h
      obtain ⟨hfinite, h⟩ := Option.ite_none_right_eq_some.1 h
      cases h
      exact hfinite
    · cases h

theorem isSingle_ofWord (word : String) : (ofWord word).IsSingle := by
  unfold ofWord
  split
  · exact trivial
  · split
    · exact trivial
    · split
      · next hread => exact isSingle_of_readNumber? hread
      · exact trivial

end Literal

namespace Grammar

theorem Scalar.isSingle {t : Token} {v : Literal} (h : Scalar t v) : v.IsSingle := by
  cases h with
  | word text => exact Literal.isSingle_ofWord text
  | quoted text => exact trivial

/-- A list is not empty and holds single values only: lists do not nest. -/
theorem Items.isSingle {ts : List Token} {vs : List Literal} (h : Items ts vs) :
    vs ≠ [] ∧ ∀ v ∈ vs, v.IsSingle := by
  induction h with
  | last hv => exact ⟨by simp, List.forall_mem_singleton.2 hv.isSingle⟩
  | more hv _ ih => exact ⟨by simp, List.forall_mem_cons.2 ⟨hv.isSingle, ih.2⟩⟩

theorem Value.wellFormed {ts : List Token} {v : Literal} (h : Value ts v) : v.WellFormed := by
  cases h with
  | scalar hv =>
    have hsingle := hv.isSingle
    cases v with
    | list items => exact hsingle.elim
    | _ => exact hsingle
  | list hvs => exact hvs.isSingle

/-! ## Trees -/

/-- A constraint whose tokens can be written is well formed. The grammar leaves open what is in a
word, so this is where the lexer comes in. -/
theorem Constraint.wellFormed {ts : List Token} {q : Query} (h : Constraint ts q)
    (hts : ∀ t ∈ ts, t.Spellable) : q.WellFormed := by
  cases h with
  | present hs => exact Selector.wellFormed_of_ofPath? (hts _ List.mem_cons_self) hs
  | equality op hs hv =>
    exact ⟨Selector.wellFormed_of_ofPath? (hts _ List.mem_cons_self) hs, hv.wellFormed⟩
  | comparison name hs hv =>
    have hname : Token.Spellable (.comparison name) := hts _ (by simp)
    exact ⟨Selector.wellFormed_of_ofPath? (hts _ List.mem_cons_self) hs,
      Comparison.wellFormed_ofName hname.1 hname.2, hv.isSingle⟩

/-- A phrase whose tokens can be written has a well-formed tree. -/
theorem Derives.wellFormed {rank : Rank} {ts : List Token} {q : Query} (h : Derives rank ts q)
    (hts : ∀ t ∈ ts, t.Spellable) : q.WellFormed := by
  induction h with
  | alternative _ ih => exact ih hts
  | factor _ ih => exact ih hts
  | or _ _ ihl ihr | and _ _ ihl ihr =>
    obtain ⟨hl, hr⟩ := List.forall_mem_append.1 hts
    exact ⟨ihl hl, ihr (List.forall_mem_cons.1 hr).2⟩
  | group _ ih => exact ih fun t ht => hts t (by simp [ht])
  | constraint hq => exact hq.wellFormed hts

/-! ## The words that are selectors -/

/-- The word that starts a constraint, if the token does. -/
def Tally.selectorWord? (c : Tally) : Token → Option String
  | .word w => if c.atOperand then some w else none
  | _ => none

/-- The words that start a constraint, in their order, where `c` has been counted before. -/
def selectorWordsFrom (c : Tally) : List Token → List String
  | [] => []
  | t :: ts => (c.selectorWord? t).toList ++ selectorWordsFrom (c.next t) ts

/-- The words that start a constraint, in their order. -/
def selectorWords (ts : List Token) : List String := selectorWordsFrom .start ts

/-- The words that start constraints are found piece by piece, with the count carried over from one
piece to the next. -/
theorem selectorWordsFrom_append (c : Tally) (ts us : List Token) :
    selectorWordsFrom c (ts ++ us) =
      selectorWordsFrom c ts ++ selectorWordsFrom (ts.foldl Tally.next c) us := by
  induction ts generalizing c with
  | nil => rfl
  | cons t ts ih =>
    rw [List.cons_append, selectorWordsFrom, selectorWordsFrom, ih, List.append_assoc,
      List.foldl_cons]

theorem mem_of_mem_selectorWordsFrom {c : Tally} {ts : List Token} {w : String}
    (h : w ∈ selectorWordsFrom c ts) : Token.word w ∈ ts := by
  induction ts generalizing c with
  | nil => cases h
  | cons t ts ih =>
    rcases List.mem_append.1 h with h | h
    · cases t with
      | word w' =>
        simp only [Tally.selectorWord?] at h
        split at h
        · rw [List.mem_singleton.1 h]
          exact List.mem_cons_self
        · cases h
      | _ => cases h
    · exact List.mem_cons_of_mem t (ih h)

/-- Where a value has to come, no token starts a constraint. So words as values and words as items
do not count. -/
theorem Tally.selectorWord?_of_value {c : Tally} (hc : c.atOperand = false) (t : Token) :
    c.selectorWord? t = none := by
  cases t with
  | word w => simp [selectorWord?, hc]
  | _ => rfl

/-- The items of a list start no constraint. -/
theorem Items.selectorWordsFrom {ts : List Token} {vs : List Literal} (h : Items ts vs)
    (groups terms : Nat) : selectorWordsFrom ⟨groups, terms, true, false⟩ ts = [] := by
  induction h with
  | last hv =>
    rw [Grammar.selectorWordsFrom, Tally.selectorWord?_of_value rfl]
    rfl
  | more hv _ ih =>
    rw [Grammar.selectorWordsFrom, Grammar.selectorWordsFrom, Tally.next_scalar hv rfl,
      Tally.selectorWord?_of_value rfl]
    exact ih

/-- A phrase has been read where an operand had to come: the words are those that start its
constraints, and none is open behind it. -/
def EndsOperand (c : Tally) (ts : List Token) (words : List String) : Prop :=
  (ts.foldl Tally.next c).atOperand = false ∧ (ts.foldl Tally.next c).inList = false ∧
    selectorWordsFrom c ts = words

/-- A closing parenthesis ends an operand, whatever it closes. Behind a group and behind a list,
neither an operand nor an item can come next. -/
theorem EndsOperand.close {c : Tally} {ts : List Token} {words : List String}
    (h : selectorWordsFrom c ts = words) : EndsOperand c (ts ++ [.closeParen]) words := by
  refine ⟨?_, ?_, ?_⟩
  · rw [List.foldl_append]
    rfl
  · rw [List.foldl_append]
    rfl
  · rw [selectorWordsFrom_append, h]
    exact List.append_nil words

/-- The only word of a constraint that counts is its selector, even if its values are words too. -/
theorem Constraint.endsOperand {ts : List Token} {q : Query} (h : Constraint ts q) {c : Tally}
    (hoperand : c.atOperand = true) (hlist : c.inList = false) :
    EndsOperand c ts (q.selectors.map Selector.path) := by
  obtain ⟨groups, terms, inList, atOperand⟩ := c
  cases hoperand
  cases hlist
  cases h with
  | present hs =>
    rw [Query.selectors, List.map_singleton, Selector.path_of_ofPath? hs]
    exact ⟨rfl, rfl, rfl⟩
  | equality op hs hv =>
    rw [Query.selectors, List.map_singleton, Selector.path_of_ofPath? hs]
    cases hv with
    | scalar hv => cases hv <;> exact ⟨rfl, rfl, rfl⟩
    | list hvs =>
      -- the operator before the parenthesis makes it the start of a list
      rw [← List.cons_append, ← List.cons_append, ← List.cons_append]
      exact .close (congrArg (List.cons _) (hvs.selectorWordsFrom groups (terms + 1)))
  | comparison name hs hv =>
    rw [Query.selectors, List.map_singleton, Selector.path_of_ofPath? hs]
    cases hv <;> exact ⟨rfl, rfl, rfl⟩

/-- Behind a separator, an operand has to come again, so the words of both sides are put together.
-/
theorem EndsOperand.join {c : Tally} {ts us : List Token} {words words' : List String}
    {separator : Token} (hseparator : separator = .comma ∨ separator = .semicolon)
    (h : EndsOperand c ts words)
    (h' : ∀ {c : Tally}, c.atOperand = true → c.inList = false → EndsOperand c us words') :
    EndsOperand c (ts ++ separator :: us) (words ++ words') := by
  obtain ⟨hoperand, hlist, rfl⟩ := h
  have hnext : ((ts.foldl Tally.next c).next separator).atOperand = true ∧
      ((ts.foldl Tally.next c).next separator).inList = false := by
    rcases hseparator with rfl | rfl <;> simp [Tally.next, hlist]
  obtain ⟨hoperand', hlist', rfl⟩ := h' hnext.1 hnext.2
  have hseparatorWord : (ts.foldl Tally.next c).selectorWord? separator = none :=
    Tally.selectorWord?_of_value hoperand separator
  refine ⟨?_, ?_, ?_⟩
  · rwa [List.foldl_append, List.foldl_cons]
  · rwa [List.foldl_append, List.foldl_cons]
  · rw [selectorWordsFrom_append, selectorWordsFrom, hseparatorWord]
    rfl

/-- Where an operand has to come, a phrase of any rank is read as one: the words that count are the
paths of its selectors, in their order. -/
theorem Derives.endsOperand {rank : Rank} {ts : List Token} {q : Query} (h : Derives rank ts q)
    {c : Tally} (hoperand : c.atOperand = true) (hlist : c.inList = false) :
    EndsOperand c ts (q.selectors.map Selector.path) := by
  induction h generalizing c with
  | alternative _ ih => exact ih hoperand hlist
  | factor _ ih => exact ih hoperand hlist
  | or _ _ ihl ihr =>
    rw [Query.selectors, List.map_append]
    exact .join (.inl rfl) (ihl hoperand hlist) ihr
  | and _ _ ihl ihr =>
    rw [Query.selectors, List.map_append]
    exact .join (.inr rfl) (ihl hoperand hlist) ihr
  | group _ ih =>
    -- where an operand has to come, a parenthesis opens a group and an operand has to come inside
    have hopen : c.next .openParen = { c with groups := c.groups + 1 } := by
      simp [Tally.next, hoperand]
    obtain ⟨-, -, hwords⟩ := ih (c := c.next .openParen) (hopen ▸ hoperand) (hopen ▸ hlist)
    rw [← List.cons_append]
    refine .close ?_
    rw [selectorWordsFrom, hwords]
    rfl
  | constraint hq => exact hq.endsOperand hoperand hlist

/-- The selectors of a phrase are its words that start a constraint. -/
theorem selectorWords_of_derives {rank : Rank} {ts : List Token} {q : Query}
    (h : Derives rank ts q) : selectorWords ts = q.selectors.map Selector.path :=
  (h.endsOperand rfl rfl).2.2

end Grammar

/-! ## Texts -/

namespace Query

open Grammar

/-- **Trees from text are well formed.** Whatever the text and the limits are, a tree that is read
has nodes that can be written: parts of selectors without dots, blanks and signs, single values or
lists of them, finite numbers, names of letters. Its selectors are, in their order, the words of the
text that start a constraint. -/
theorem wellFormed_of_parse {text : String} {limits : Limits} {q : Query}
    (h : parse text limits = .ok q) :
    q.WellFormed ∧ ∃ tokens, Token.lex text = .ok tokens ∧
      selectorWords (tokens.map PlacedToken.token) = q.selectors.map Selector.path ∧
      ∀ s ∈ q.selectors, ∃ t ∈ tokens, t.token = .word s.path := by
  unfold parse at h
  split at h
  · next tokens hlex =>
    obtain ⟨body, rfl, hlays⟩ := Token.exists_lays_of_lex hlex
    have hq := Parser.derives_of_parse h
    have hspellable : ∀ t ∈ body.map PlacedToken.token, t.Spellable := by
      simpa using spellable_of_lays hlays
    -- the end of input behind the tokens is no word
    have hwords : selectorWords
        ((body ++ [(⟨.endOfInput, text.length⟩ : PlacedToken)]).map PlacedToken.token) =
        q.selectors.map Selector.path := by
      rw [List.map_append, selectorWords, selectorWordsFrom_append, ← selectorWords,
        selectorWords_of_derives hq]
      exact List.append_nil _
    refine ⟨hq.wellFormed hspellable, _, hlex, hwords, fun s hs => ?_⟩
    have hword : s.path ∈ selectorWords _ := hwords ▸ List.mem_map_of_mem hs
    exact List.mem_map.1 (mem_of_mem_selectorWordsFrom hword)
  · cases h

/-- Words at the place of a selector, of a value and of an item of a list, and a quoted text that
looks like a selector. -/
theorem wellFormed_of_parse_words_in_all_places :
    let text := "(a.b == (c,'d'),e!);f=like=-2.50"
    let q : Query := .and
      (.or (.equality ⟨some "a", "b"⟩ .equal (.list [.text "c", .text "d"])) (.present ⟨none, "e!"⟩))
      (.comparison ⟨none, "f"⟩ (.custom "like") (.number (.float (.ofScientific true 250 (-2)))))
    parse text {} = .ok q ∧ q.WellFormed ∧ ∃ tokens, Token.lex text = .ok tokens ∧
      selectorWords (tokens.map PlacedToken.token) = ["a.b", "e!", "f"] := by
  intro text q
  have hparse : parse text {} = .ok q := by decide +kernel
  obtain ⟨hq, tokens, hlex, hwords, -⟩ := wellFormed_of_parse hparse
  exact ⟨hparse, hq, tokens, hlex, hwords⟩

end Query

end FilterQuery
