import FilterQuery.Proofs.Predicate.Compilation
import FilterQuery.Proofs.Query.Limits
import FilterQuery.Proofs.Query.Rendering
import FilterQuery.Proofs.Token.Spans
import FilterQuery.Task

/-!
# Queries put together as texts

Two texts can be joined without a look at what they say: `(a),(b)` and `a,b` ask for one of them,
`(a);(b)` for both. That this is right has three parts.

* Lexing is local. A text that was read alone is split into the same tokens in front of anything that
  closes it (`Lays.lexes`), so no word, operator or quote reaches over the joint.
* A text that is read alone is a phrase, and phrases are joined by the grammar. Between parentheses
  the tree of a phrase stays whole. Without them the alternatives of `a` come first, one after
  another, and `b` ends up below the last of them (`Appended`).
* The predicate of a tree is made from the predicates of its parts, and "or" can be regrouped
  (`Compiles.appended`).

`Limits.admits` says which texts stay within the limits, by counting along the tokens.
-/

namespace FilterQuery

open Grammar

/-! ## Lexing in front of a closing text -/

namespace Token

/-- What ends a word still ends it when a closing text follows. Where the text itself was the end,
the closing text begins with a delimiter or a blank. -/
theorem WordStop.append {rest closing : List Char} (h : WordStop rest) (hclosing : Closing closing) :
    WordStop (rest ++ closing) := by
  cases h with
  | endOfText =>
    cases closing with
    | nil => exact .endOfText
    | cons c closing =>
      obtain ⟨-, hc⟩ := hclosing c rfl
      rcases Bool.or_eq_true_iff.1 hc with hc | hc
      · exact .sign (isDelimiter_iff.1 hc)
      · exact .blank hc
  | blank hc => exact .blank hc
  | sign hc => exact .sign hc
  | notEqual => exact .notEqual

/-- A token that ends at the end of a text also ends where something closes the text. Only a word
looks at what follows it, and the closing text ends it too. -/
theorem Reads.append {t : Token} {cs rest closing : List Char} (h : t.Reads cs rest)
    (hclosing : Closing closing) : t.Reads cs (rest ++ closing) := by
  -- a closing text does not begin with an equals sign, so no operator grows by one either
  refine ((occupies_of_reads h).of_rest (·.append hclosing) fun hhead => ?_).reads
  cases rest with
  | nil => exact absurd rfl (hclosing '=' hhead).1
  | cons c rest => exact hhead

end Token

theorem lexes_blanks {w : List Char} (hw : ∀ c ∈ w, Text.isBlank c = true) : Lexes w [] := by
  intro position rest us _ hlays
  refine ⟨[], rfl, ?_⟩
  induction w generalizing position with
  | nil => exact hlays
  | cons c w ih =>
    obtain ⟨hc, hw⟩ := List.forall_mem_cons.1 hw
    rw [List.length_cons, Nat.add_comm w.length, ← Nat.add_assoc] at hlays
    exact .blank hc (ih hw (position + 1) hlays)

/-- A text that is laid out alone is laid out in the same way in front of anything that closes
it. -/
theorem Lays.lexes {position : Nat} {cs : List Char} {ts : List PlacedToken}
    (h : Lays position cs ts) : Lexes cs (ts.map PlacedToken.token) := by
  induction h with
  | blanks hw => exact lexes_blanks hw
  | @token _ w cs ds t ts hw ht _ ih =>
    intro position rest us hrest hlays
    have hlength : position + (w ++ cs ++ ds).length =
        position + w.length + cs.length + ds.length := by
      simp only [List.length_append]
      omega
    rw [hlength] at hlays
    obtain ⟨placed, hplaced, hlays⟩ := ih _ rest us hrest hlays
    -- the first token ends as it did, since what is behind it begins as before or closes the text
    refine ⟨⟨t, position + w.length⟩ :: placed, by rw [List.map_cons, List.map_cons, hplaced], ?_⟩
    rw [List.append_assoc (w ++ cs)]
    exact .token hw (ht.append hrest) hlays

/-! ## Limits -/

namespace Limits

/-- Whether the text stays within the limits: none of them is exceeded along its tokens. -/
def admits (limits : Limits) (text : String) : Bool :=
  match Token.lex text with
  | .ok tokens => (limits.firstExceeded? .start tokens).isNone
  | .error _ => true

theorem firstExceeded?_eq_none_of_append {limits : Limits} {c : Tally} {ts us : List PlacedToken}
    (h : limits.firstExceeded? c (ts ++ us) = none) : limits.firstExceeded? c ts = none := by
  induction ts generalizing c with
  | nil => rfl
  | cons t ts ih =>
    obtain ⟨hfirst, hrest⟩ := Option.or_eq_none_iff.1 h
    exact Option.or_eq_none_iff.2 ⟨hfirst, ih hrest⟩

end Limits

/-- A text that is a query without limits is this query under the limits that admit it. -/
theorem Query.LimitFree.parse_of_admits {text : String} {q : Query}
    (h : LimitFree text (.ok q)) {limits : Limits} (hadmits : limits.admits text = true) :
    parse text limits = .ok q := by
  cases hlex : Token.lex text with
  | error e =>
    have hquery := h.of_le ⟨text.length, text.length⟩ (Nat.le_refl _) (Nat.le_refl _)
    rw [h.of_lex_eq_error e hlex] at hquery
    cases hquery
  | ok tokens =>
    obtain ⟨body, read, rfl, -, hparse, hread⟩ := h.of_lex_eq_ok tokens hlex
    obtain ⟨rfl, -⟩ := hread q rfl
    rw [Limits.admits, hlex] at hadmits
    have hnone := Limits.firstExceeded?_eq_none_of_append (Option.isNone_iff_eq_none.1 hadmits)
    rw [hparse, hnone]
    rfl

/-! ## Phrases -/

/-- Whatever closes the text, it is split into tokens that derive the query. -/
def Query.IsPhrase (q : Query) (text : String) : Prop :=
  ∃ ts, Lexes text.toList ts ∧ Derives .alternatives ts q

namespace Query

/-- A text that is read as a query, under whatever limits, is a phrase for it. So two texts that
were read under different limits can still be joined. -/
theorem isPhrase_of_parse {text : String} {limits : Limits} {q : Query}
    (h : parse text limits = .ok q) : q.IsPhrase text := by
  obtain ⟨body, -, hlays, hq, -⟩ := exists_derives_of_parse h
  exact ⟨_, hlays.lexes, hq⟩

/-- A phrase is read as its query when there are no limits: its tokens derive the query, and the
parser gives what the tokens derive. -/
theorem IsPhrase.limitFree {text : String} {q : Query} (h : q.IsPhrase text) :
    LimitFree text (.ok q) := by
  obtain ⟨ts, hlexes, hq⟩ := h
  obtain ⟨placed, endOffset, rfl, hlex⟩ := hlexes.lex
  obtain ⟨body, hbody, hlays⟩ := Token.exists_lays_of_lex hlex
  obtain ⟨rfl, hend⟩ := List.append_inj' hbody rfl
  rw [hend] at hlex
  have hfree := limitFree_of_lex_eq_ok hlex hlays
  -- under limits as large as the text, both what is read without limits and the query come out
  have hlength := Lexer.length_le_of_lays hlays
  have hdepth := groupDepth_le (placed.map PlacedToken.token)
  have hterms := hq.length_selectors_le
  rw [List.length_map] at hdepth hterms
  rw [String.length_toList] at hlength
  have hparse : parse text ⟨text.length, text.length⟩ = .ok q := by
    rw [parse_of_lex_eq_ok hlex]
    exact Parser.parse_of_derives hq _ (Nat.le_trans hdepth hlength) (Nat.le_trans hterms hlength)
  rwa [← hparse, hfree.of_le _ (Nat.le_refl _) (Nat.le_refl _)]

/-- Two groups with a separator between them are the join that the separator stands for. The
separator is given with its token and its character, so that both joins are one argument. -/
theorem IsPhrase.groups {l r join : Query} {a b : String} (ha : l.IsPhrase a) (hb : r.IsPhrase b)
    {separator : Token} {c : Char} (hc : ∀ rest, separator.Reads [c] rest)
    (hclosing : ∀ rest, Closing (c :: rest))
    (hjoin : ∀ {ts us}, Derives .operand ts l → Derives .operand us r →
      Derives .alternatives (ts ++ separator :: us) join) :
    join.IsPhrase ("(" ++ a ++ ")" ++ String.ofList [c] ++ "(" ++ b ++ ")") := by
  obtain ⟨ts, hlex, hl⟩ := ha
  obtain ⟨us, hlex', hr⟩ := hb
  have hlexes := hlex.parens.append (.cons hc hlex'.parens) fun _ _ => hclosing _
  exact ⟨_, by simpa using hlexes, hjoin (.group hl) (.group hr)⟩

/-- Two phrases in parentheses with a comma between them are a phrase for "or". -/
theorem IsPhrase.either {l r : Query} {a b : String} (ha : l.IsPhrase a) (hb : r.IsPhrase b) :
    (Query.or l r).IsPhrase ("(" ++ a ++ "),(" ++ b ++ ")") := by
  have hclosing (rest : List Char) : Closing (',' :: rest) := closing_cons (by decide) (by decide)
  have := ha.groups hb Token.reads_comma hclosing fun hl hr =>
    .or (.factor hl) (hr.ofOperand .alternatives)
  simpa [String.append_assoc] using this

theorem IsPhrase.both {l r : Query} {a b : String} (ha : l.IsPhrase a) (hb : r.IsPhrase b) :
    (Query.and l r).IsPhrase ("(" ++ a ++ ");(" ++ b ++ ")") := by
  have hclosing (rest : List Char) : Closing (';' :: rest) := closing_cons (by decide) (by decide)
  have := ha.groups hb Token.reads_semicolon hclosing fun hl hr =>
    .alternative (.and hl (hr.ofOperand .factors))
  simpa [String.append_assoc] using this

/-- The query `q` is `l` with `r` as a further alternative behind its last one. How many
alternatives `l` has does not show in the tree, since a group leaves no node. -/
inductive Appended (r : Query) : Query → Query → Prop where
  | last (l : Query) : Appended r l (.or l r)
  | under {l q : Query} (first : Query) (h : Appended r l q) :
      Appended r (.or first l) (.or first q)

/-- Alternatives in front of alternatives. -/
theorem exists_appended_of_derives {rank : Rank} {ts us : List Token} {l r : Query}
    (hl : Derives rank ts l) (hrank : rank = .alternatives) (hr : Derives .alternatives us r) :
    ∃ q, Derives .alternatives (ts ++ .comma :: us) q ∧ Appended r l q := by
  induction hl with
  -- along the alternatives of the first phrase; the second one goes behind the last of them
  | alternative hl => exact ⟨_, .or hl hr, .last _⟩
  | @or ts ts' first _ hfirst _ _ ih =>
    obtain ⟨q, hq, happended⟩ := ih rfl
    refine ⟨.or first q, ?_, .under first happended⟩
    rw [List.append_assoc]
    exact .or hfirst hq
  | _ => cases hrank

/-- Two phrases with a comma between them, without parentheses, are a phrase for the first query
with the second as a further alternative. The tree nests to the right, so it need not be "or" of the
two. -/
theorem IsPhrase.append {l r : Query} {a b : String} (ha : l.IsPhrase a) (hb : r.IsPhrase b) :
    ∃ q, q.IsPhrase (a ++ "," ++ b) ∧ Appended r l q := by
  obtain ⟨ts, hlex, hl⟩ := ha
  obtain ⟨us, hlex', hr⟩ := hb
  obtain ⟨q, hq, happended⟩ := exists_appended_of_derives hl rfl hr
  have hlexes := hlex.append (.cons Token.reads_comma hlex') fun _ _ =>
    closing_cons (by decide) (by decide)
  exact ⟨q, ⟨_, by simpa using hlexes, hq⟩, happended⟩

end Query

/-! ## Predicates -/

/-- A further alternative widens what is accepted, wherever it stands in the tree. The tree of the
join is regrouped, and "or" does not depend on the grouping. -/
theorem Predicate.Compiles.appended {options : Options} {l r q : Query} {left right : Predicate}
    (h : Query.Appended r l q) (hl : Compiles options l left) (hr : Compiles options r right) :
    ∃ p, Compiles options q p ∧
      ∀ doc, p.accepts doc = (left.accepts doc || right.accepts doc) := by
  induction h generalizing left with
  | last l => exact ⟨.any left right, .or hl hr, fun _ => rfl⟩
  | under first _ ih =>
    cases hl with
    | @or _ _ outer inner hfirst hl =>
      obtain ⟨p, hp, haccepts⟩ := ih hl
      refine ⟨.any outer p, .or hfirst hp, fun doc => ?_⟩
      rw [accepts, accepts, haccepts, Bool.or_assoc]

/-! ## Filtering with a text -/

namespace Task

/-- The documents that satisfy a query, which is read under the given limits. -/
def select (query : String) (limits : Limits) (options : Predicate.Options) (docs : List Json) :
    Except Error (List Json) := do
  let q ← readQuery query limits
  match Predicate.ofQuery q options with
  | .ok p => .ok (p.filter docs)
  | .error e => .error (.badPredicate e)

/-- The task of filtering an input selects among the documents of the input. -/
theorem filter_eq_select {query input : String} {j : Json} (hinput : Json.read? input = some j)
    (options : Predicate.Options) :
    filter query (some input) options =
      (do return .array (← select query {} options (documents j))) := by
  unfold filter select
  cases readQuery query {} with
  | error e => rfl
  | ok q =>
    simp only [bind, Except.bind]
    cases Predicate.ofQuery q options with
    | error e => rfl
    | ok p =>
      simp only [hinput]
      rfl

/-- Selection with a text that is read as a query with a predicate keeps the documents that the
predicate accepts. -/
theorem select_of_parse {query : String} {limits : Limits} {q : Query}
    (h : Query.parse query limits = .ok q) {options : Predicate.Options} {p : Predicate}
    (hp : Predicate.ofQuery q options = .ok p) (docs : List Json) :
    select query limits options docs = .ok (docs.filter p.accepts) := by
  rw [select, readQuery, h]
  show (match Predicate.ofQuery q options with | .ok p => _ | .error e => _) = _
  rw [hp]
  rfl

/-- **Joined texts mean the join of their queries.** Two groups are read as "or" or "and" of what the
texts are read as, under all limits that admit the joined text. If both queries have predicates, so
has every join. Of any list of documents it keeps, in their order, those that both queries keep, or
those that one of them keeps, with or without parentheses. Filtering with both is filtering with one
and then with the other. -/
theorem select_joined {a b : String} {limits : Limits} {l r : Query}
    (ha : Query.parse a limits = .ok l) (hb : Query.parse b limits = .ok r) :
    let either := "(" ++ a ++ "),(" ++ b ++ ")"
    let both := "(" ++ a ++ ");(" ++ b ++ ")"
    let chain := a ++ "," ++ b
    (limits.admits either = true → Query.parse either limits = .ok (.or l r)) ∧
    (limits.admits both = true → Query.parse both limits = .ok (.and l r)) ∧
    ∀ (options : Predicate.Options) (left right : Predicate),
      Predicate.ofQuery l options = .ok left → Predicate.ofQuery r options = .ok right →
      ∀ docs : List Json,
        select a limits options docs = .ok (docs.filter left.accepts) ∧
        select b limits options docs = .ok (docs.filter right.accepts) ∧
        (limits.admits both = true →
          select both limits options docs =
            .ok (docs.filter fun doc => left.accepts doc && right.accepts doc) ∧
          select both limits options docs =
            (do select b limits options (← select a limits options docs))) ∧
        (limits.admits either = true → select either limits options docs =
          .ok (docs.filter fun doc => left.accepts doc || right.accepts doc)) ∧
        (limits.admits chain = true → select chain limits options docs =
          .ok (docs.filter fun doc => left.accepts doc || right.accepts doc)) := by
  intro either both chain
  have hl := Query.isPhrase_of_parse ha
  have hr := Query.isPhrase_of_parse hb
  have heither (h : limits.admits either = true) := (hl.either hr).limitFree.parse_of_admits h
  have hboth (h : limits.admits both = true) := (hl.both hr).limitFree.parse_of_admits h
  refine ⟨heither, hboth, fun options left right hleft hright docs => ?_⟩
  have hselect := select_of_parse ha hleft
  have hselect' := select_of_parse hb hright
  rw [Predicate.ofQuery_eq_ok_iff] at hleft hright
  refine ⟨hselect docs, hselect' docs, fun h => ?_, fun h => ?_, fun h => ?_⟩
  · have hkept := select_of_parse (hboth h) (Predicate.ofQuery_eq_ok_iff.2 (.and hleft hright)) docs
    refine ⟨hkept, hkept.trans ?_⟩
    rw [hselect]
    -- to filter twice is to filter by both, in whichever order they are tested
    show _ = select b limits options (docs.filter left.accepts)
    rw [hselect', List.filter_filter]
    exact congrArg _ (List.filter_congr fun _ _ => Bool.and_comm _ _)
  · exact select_of_parse (heither h) (Predicate.ofQuery_eq_ok_iff.2 (.or hleft hright)) docs
  -- the tree of the chain is not "or" of the two, but its predicate accepts the same
  · obtain ⟨q, hq, happended⟩ := hl.append hr
    obtain ⟨p, hp, haccepts⟩ := hleft.appended happended hright
    rw [select_of_parse (hq.limitFree.parse_of_admits h) (Predicate.ofQuery_eq_ok_iff.2 hp)]
    exact congrArg _ (List.filter_congr fun doc _ => haccepts doc)

/-- Texts with ends that could be taken for something else: alternatives, a list with a quoted joint in
it, a word that ends in an exclamation mark, a group at the start. The limits are as small as they
can be. -/
theorem select_joined_quotes_and_marks :
    let a := "x==('),(',2),y!"
    let b := " (z;x!=2),w=gt=1 "
    let l : Query := .or (.equality ⟨none, "x"⟩ .equal (.list [.text "),(", .number (.integer 2)]))
      (.present ⟨none, "y!"⟩)
    let r : Query := .or (.and (.present ⟨none, "z"⟩)
        (.equality ⟨none, "x"⟩ .notEqual (.number (.integer 2))))
      (.comparison ⟨none, "w"⟩ (.bound .greater) (.number (.integer 1)))
    let limits : Limits := ⟨2, 5⟩
    let one : Json := .object [("w", .number (.integer 2))]
    let two : Json := .object [("x", .string "),("), ("z", .bool true)]
    let neither : Json := .object [("x", .number (.integer 3)), ("z", .null)]
    Query.parse a limits = .ok l ∧ Query.parse b limits = .ok r ∧
      Query.parse ("(" ++ a ++ "),(" ++ b ++ ")") limits = .ok (.or l r) ∧
      Query.parse ("(" ++ a ++ ");(" ++ b ++ ")") limits = .ok (.and l r) ∧
      select ("(" ++ a ++ ");(" ++ b ++ ")") limits {} [one, two, neither] = .ok [two] ∧
      select ("(" ++ a ++ "),(" ++ b ++ ")") limits {} [one, two, neither] = .ok [one, two] ∧
      select (a ++ "," ++ b) limits {} [one, two, neither] = .ok [one, two] := by
  intro a b l r limits one two neither
  have ha : Query.parse a limits = .ok l := by decide +kernel
  have hb : Query.parse b limits = .ok r := by decide +kernel
  have heither : limits.admits ("(" ++ a ++ "),(" ++ b ++ ")") = true := by decide +kernel
  have hboth : limits.admits ("(" ++ a ++ ");(" ++ b ++ ")") = true := by decide +kernel
  have hchain : limits.admits (a ++ "," ++ b) = true := by decide +kernel
  obtain ⟨hor, hand, hselect⟩ := select_joined ha hb
  obtain ⟨-, -, hselect, hselect', hselect''⟩ := hselect {} _ _ rfl rfl [one, two, neither]
  exact ⟨ha, hb, hor heither, hand hboth, (hselect hboth).1, hselect' heither, hselect'' hchain⟩

end Task

end FilterQuery
