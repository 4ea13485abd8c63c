import Mathlib.Data.List.Basic
import FilterQuery.Proofs.Sql.Statement

/-!
# A statement says which query it comes from

Where case matters, the text of a statement and its values determine the query, up to one pair of
forms that are written alike: a selector alone, and the test that it is not null. This is a theorem
of unique readability, and it is proved in three steps.

* `pieces_injective`: a reader who splits a text into its parts also finds the lexemes, as no lexeme
  starts with the parts of another one.
* `Reads` is a grammar for the lexemes of conditions, with the query and the values that a condition
  stands for. `Builds.reads` says that what a walk builds follows it.
* `Reads.unique`: two conditions that start a list of lexemes are one, and so are their queries if
  their values start one list.

Without regard to case this fails: values are bound in lower case, so the query is lost.
-/

namespace FilterQuery

/-- The query with every selector alone replaced by the test that it is not null. -/
def Query.explicit : Query → Query
  | .or l r => .or l.explicit r.explicit
  | .and l r => .and l.explicit r.explicit
  | .present s => .comparison s .isNull (.bool false)
  | .equality s op v => .equality s op v
  | .comparison s op v => .comparison s op v

namespace Sql

/-! ## Lexemes from parts -/

/-- All marks there are. -/
def Mark.all : List Mark :=
  [select, fromTable, whereHolds, conjunction, disjunction, isNull, isNotNull, isIn, isNotIn, like,
    notLike, likeAnyCase, notLikeAnyCase, lower, equal, notEqual, bound .greater, bound .less,
    bound .greaterOrEqual, bound .lessOrEqual, openParen, closeParen, comma, dot, star]

/-- The list of marks is complete, so what is decided for its members holds of all marks. -/
theorem Mark.mem_all (m : Mark) : m ∈ all := by
  cases m with
  | bound b => cases b <;> decide
  | _ => decide

/-- No mark starts with the words of another one. This is where the choice of words matters: "NOT
IN" and "NOT LIKE" part at their fourth word, and no mark ends where another one goes on. -/
theorem Mark.eq_of_pieces_prefix {m m' : Mark}
    (h : (Lexeme.mark m).pieces <+: (Lexeme.mark m').pieces) : m = m' := by
  have hall : ∀ m ∈ all, ∀ m' ∈ all,
      (Lexeme.mark m).pieces <+: (Lexeme.mark m').pieces → m = m' := by decide +kernel
  exact hall m m.mem_all m' m'.mem_all h

theorem Mark.exists_word (m : Mark) :
    ∃ w ∈ vocabulary, ∃ rest, (Lexeme.mark m).pieces = .bare w :: rest := by
  cases hwords : m.words with
  | nil => exact absurd hwords (by cases m with | bound b => cases b <;> decide | _ => decide)
  | cons w ws =>
    have hmem : w ∈ m.words := by rw [hwords]; exact List.mem_cons_self
    exact ⟨w, m.mem_vocabulary hmem, ws.map .bare, congrArg (List.map Piece.bare) hwords⟩

/-- A placeholder shows its number. -/
theorem placeholder_injective {n n' : Nat} (h : placeholder n = placeholder n') : n = n' := by
  have hchars := congrArg String.toList h
  rw [toList_placeholder, toList_placeholder] at hchars
  -- behind the dollar sign are the figures of the number, which are read back
  have hfigures := congrArg (Nat.ofDigitChars 10 · 0) (List.cons.inj hchars).2
  simpa only [Nat.ofDigitChars_ten_toDigits] using hfigures

theorem placeholder_notMem_vocabulary (n : Nat) : placeholder n ∉ vocabulary := by
  intro hmem
  have hdollar : ∀ w ∈ vocabulary, w.toList.head? ≠ some '$' := by decide
  refine hdollar _ hmem ?_
  rw [toList_placeholder]
  rfl

/-- What starts with the words of a mark starts with no other lexeme. -/
theorem eq_of_mark_pieces_append {m : Mark} {l : Lexeme} {rest rest' : List Piece}
    (h : (Lexeme.mark m).pieces ++ rest = l.pieces ++ rest') : .mark m = l := by
  obtain ⟨w, hw, ws, hpieces⟩ := m.exists_word
  cases l with
  -- of two prefixes of one list, one is a prefix of the other
  | mark m' =>
    have hprefix : (Lexeme.mark m).pieces <+: (Lexeme.mark m').pieces ++ rest' := ⟨rest, h⟩
    rcases List.prefix_or_prefix_of_prefix hprefix (List.prefix_append _ rest') with hm | hm
    · rw [Mark.eq_of_pieces_prefix hm]
    · rw [Mark.eq_of_pieces_prefix hm]
  | name identifier =>
    rw [hpieces] at h
    cases (List.cons.inj h).1
  | slot n =>
    rw [hpieces] at h
    cases (List.cons.inj h).1
    exact absurd hw (placeholder_notMem_vocabulary n)

/-- No lexeme starts with the parts of another one. What follows the two need not be the same, since
a prefix decides already. -/
theorem eq_of_pieces_append {l l' : Lexeme} {rest rest' : List Piece}
    (h : l.pieces ++ rest = l'.pieces ++ rest') : l = l' := by
  cases l with
  | mark m => exact eq_of_mark_pieces_append h
  | name identifier =>
    cases l' with
    | mark m' => exact (eq_of_mark_pieces_append h.symm).symm
    | name identifier' =>
      cases (List.cons.inj h).1
      rfl
    | slot n' => cases (List.cons.inj h).1
  | slot n =>
    cases l' with
    | mark m' => exact (eq_of_mark_pieces_append h.symm).symm
    | name identifier' => cases (List.cons.inj h).1
    | slot n' => rw [placeholder_injective (Piece.bare.inj (List.cons.inj h).1)]

theorem pieces_ne_nil (l : Lexeme) : l.pieces ≠ [] := by
  cases l with
  | mark m =>
    obtain ⟨w, -, rest, h⟩ := m.exists_word
    rw [h]
    exact List.cons_ne_nil _ _
  | name identifier => exact List.cons_ne_nil _ _
  | slot n => exact List.cons_ne_nil _ _

/-- Two lists of lexemes with the same parts are the same. With it, everything below can be said
about lexemes, although it is about texts. -/
theorem pieces_injective {ls ls' : List Lexeme} (h : pieces ls = pieces ls') : ls = ls' := by
  induction ls generalizing ls' with
  | nil =>
    cases ls' with
    | nil => rfl
    | cons l' ls' => exact absurd (List.append_eq_nil_iff.1 h.symm).1 (pieces_ne_nil l')
  | cons l ls ih =>
    cases ls' with
    | nil => exact absurd (List.append_eq_nil_iff.1 h).1 (pieces_ne_nil l)
    | cons l' ls' =>
      rw [pieces_cons, pieces_cons] at h
      obtain rfl := eq_of_pieces_append h
      rw [ih (List.append_cancel_left h)]

/-! ## Patterns -/

/-- The text with stars that a pattern was made from. -/
def readPattern : List Char → List Char
  | [] => []
  | '%' :: rest => '*' :: readPattern rest
  | '\\' :: c :: rest => c :: readPattern rest
  | c :: rest => c :: readPattern rest

/-- What a character of a text with stars is encoded as is read back as the character. -/
theorem readPattern_patternChar (c : Char) (rest : List Char) :
    readPattern (patternChar c ++ rest) = c :: readPattern rest := by
  unfold patternChar
  by_cases hstar : c = '*'
  · rw [if_pos hstar, hstar]
    rfl
  · rw [if_neg hstar]
    by_cases hspecial : c = '%' ∨ c = '_' ∨ c = '\\'
    · rw [if_pos hspecial]
      rfl
    · rw [if_neg hspecial]
      rw [List.singleton_append, readPattern]
      · exact fun h => hspecial (.inl h)
      · exact fun _ _ h => absurd (.inr (.inr h)) hspecial

/-- A pattern is read back as the text with stars that it was made from. So nothing of the text is
lost in the pattern that is bound for it. -/
theorem readPattern_likePattern (t : String) :
    String.ofList (readPattern (likePattern t).toList) = t := by
  have hchars (cs : List Char) : readPattern (cs.flatMap patternChar) = cs := by
    induction cs with
    | nil => rfl
    | cons c cs ih => rw [List.flatMap_cons, readPattern_patternChar, ih]
  rw [likePattern, String.toList_ofList, hchars, String.ofList_toList]

/-! ## A grammar of conditions -/

/-- How the queries on both sides of a mark are joined. -/
def connective? : Mark → Option (Query → Query → Query)
  | .disjunction => some .or
  | .conjunction => some .and
  | _ => none

/-- The constraint on a selector that a mark and the values of its placeholders stand for. -/
def constraint? (s : Selector) : Mark → List Literal → Option Query
  | .isNull, [] => some (.comparison s .isNull (.bool true))
  | .isNotNull, [] => some (.comparison s .isNull (.bool false))
  | .equal, [v] => some (.equality s .equal v)
  | .notEqual, [v] => some (.equality s .notEqual v)
  | .like, [.text p] => some (.equality s .equal (.text (.ofList (readPattern p.toList))))
  | .notLike, [.text p] => some (.equality s .notEqual (.text (.ofList (readPattern p.toList))))
  | .isIn, items => some (.equality s .equal (.list items))
  | .isNotIn, items => some (.equality s .notEqual (.list items))
  | .bound b, [v] => some (.comparison s (.bound b) v)
  | _, _ => none

/-- What follows the mark of a constraint: nothing, a placeholder, or a list of them. -/
inductive Form where
  | null
  | value
  | list

/-- What follows the mark in a constraint. -/
def Mark.form : Mark → Form
  | .isNull => .null
  | .isNotNull => .null
  | .isIn => .list
  | .isNotIn => .list
  | _ => .value

/-- The placeholders after a mark, one for each value. Their numbers are free: a reader knows which
value belongs to which placeholder by counting. -/
inductive Operands : Form → List Literal → List Lexeme → Prop where
  | null : Operands .null [] []
  | value (v : Literal) (n : Nat) : Operands .value [v] [.slot n]
  | list (items ps : List Literal) :
      Operands .list items (nextSlots ps items.length ++ [.mark .closeParen])

/-- The lexemes of a condition, the values of its placeholders, and the query that it stands for. -/
inductive Reads : List Lexeme → List Literal → Query → Prop where
  | constraint {s : Selector} {m : Mark} {vs : List Literal} {ls : List Lexeme} {q : Query}
      (hq : constraint? s m vs = some q) (hls : Operands m.form vs ls) :
      Reads (column s ++ .mark m :: ls) vs q
  | joined {m : Mark} {join : Query → Query → Query} {left right : List Lexeme}
      {vs vs' : List Literal} {l r : Query} (hm : connective? m = some join)
      (hl : Reads left vs l) (hr : Reads right vs' r) :
      Reads (joined m left right) (vs ++ vs') (join l r)

/-- Where case matters, the condition of an equality constraint stands for the constraint. Its mark
tells the operator and whether the value is a list or a pattern. -/
theorem reads_of_ofEquality {s : Selector} {op : Equality} {v : Literal} {ps ps' : List Literal}
    {ls : List Lexeme} (h : ofEquality false s op v ps = (ls, ps')) :
    Reads ls (boundByEquality v) (.equality s op v) := by
  -- a value that is neither a list nor a pattern is compared by one of the two marks of equality
  have hscalar (v : Literal) : Reads
      (withValue (column s) (if op == .notEqual then .notEqual else .equal) v ps).1 [v]
      (.equality s op v) := by
    cases op <;> exact .constraint rfl (.value v _)
  cases v with
  | text t =>
    simp only [ofEquality, List.contains_iff_mem] at h
    simp only [boundByEquality]
    split at h
    next hstar =>
      cases h
      rw [if_pos hstar]
      -- the pattern is taken back to the text it was made from
      have hpattern (op : Equality) :
          some (Query.equality s op (.text (.ofList (readPattern (likePattern t).toList)))) =
            some (.equality s op (.text t)) := by
        rw [readPattern_likePattern]
      cases op with
      | equal => exact .constraint (m := .like) (hpattern .equal) (.value _ _)
      | notEqual => exact .constraint (m := .notLike) (hpattern .notEqual) (.value _ _)
    next hstar =>
      cases h
      rw [if_neg hstar]
      exact hscalar _
  | list items =>
    cases h
    rw [List.append_assoc]
    cases op with
    | equal => exact .constraint (m := .isIn) rfl (.list items ps)
    | notEqual => exact .constraint (m := .isNotIn) rfl (.list items ps)
  | bool b =>
    cases h
    exact hscalar _
  | number n =>
    cases h
    exact hscalar _

/-- Where case matters, the condition of a comparison stands for the comparison. A test for null
binds nothing, so its mark tells the truth value. -/
theorem reads_of_ofComparison {s : Selector} {op : Comparison} {v : Literal}
    {ps ps' : List Literal} {ls : List Lexeme}
    (h : ofComparison false s op v ps = .ok (ls, ps')) :
    Reads ls (boundByComparison op v) (.comparison s op v) := by
  unfold ofComparison at h
  cases op with
  | bound b =>
    simp only [Comparison.demand] at h
    cases hordered : v.isOrdered with
    | false => simp [hordered] at h
    | true =>
      simp only [hordered, if_true] at h
      cases h
      exact .constraint (m := .bound b) rfl (.value v _)
  | isNull =>
    cases v with
    | bool expected =>
      cases h
      cases expected with
      | false => exact .constraint (m := .isNotNull) rfl .null
      | true => exact .constraint (m := .isNull) rfl .null
    | number _ => cases h
    | text _ => cases h
    | list _ => cases h
  | custom name => cases h

/-- Where case matters, a walk builds the condition that stands for its query, with the values that
the query binds. -/
theorem Builds.reads {options : Options} (hcase : options.ignoreCase = false) {q : Query}
    {ps ps' : List Literal} {ls : List Lexeme} (h : Builds options q ps ls ps') :
    Reads ls (bound false q) q.explicit := by
  induction h with
  | or _ _ ihl ihr => exact .joined (m := .disjunction) rfl ihl ihr
  | and _ _ ihl ihr => exact .joined (m := .conjunction) rfl ihl ihr
  | present => exact .constraint (m := .isNotNull) rfl .null
  | equality _ h =>
    rw [hcase] at h
    exact reads_of_ofEquality h
  | comparison _ h =>
    rw [hcase] at h
    exact reads_of_ofComparison h

/-! ## Unique readability -/

/-- A column in front of a mark other than a dot is found again, with the mark and what follows it.
-/
theorem column_append_inj {s s' : Selector} {m m' : Mark} {rest rest' : List Lexeme}
    (hm : m ≠ .dot) (hm' : m' ≠ .dot)
    (h : column s ++ .mark m :: rest = column s' ++ .mark m' :: rest') :
    s = s' ∧ m = m' ∧ rest = rest' := by
  obtain ⟨_ | association, field⟩ := s <;> obtain ⟨_ | association', field'⟩ := s' <;> cases h
  · exact ⟨rfl, rfl, rfl⟩
  -- a column without an association has no dot after its first name
  · exact absurd rfl hm
  · exact absurd rfl hm'
  · exact ⟨rfl, rfl, rfl⟩

theorem mem_of_mem_intersperse {α : Type} {sep a : α} {xs : List α} (h : a ∈ xs.intersperse sep) :
    a ∈ xs ∨ a = sep := by
  induction xs with
  | nil => exact .inl h
  | cons x xs ih =>
    cases xs with
    | nil => exact .inl h
    | cons y ys =>
      rw [List.intersperse_cons_cons, List.mem_cons, List.mem_cons] at h
      rcases h with rfl | rfl | h
      · exact .inl List.mem_cons_self
      · exact .inr rfl
      · exact (ih h).imp_left (List.mem_cons_of_mem x)

theorem closeParen_notMem_nextSlots (ps : List Literal) (n : Nat) :
    .mark .closeParen ∉ nextSlots ps n := by
  intro hmem
  rcases mem_of_mem_intersperse hmem with hslot | hcomma
  · obtain ⟨i, -, hi⟩ := List.mem_map.1 hslot
    cases hi
  · cases hcomma

/-- Two lists are cut at the first occurrence of an element in the same way. The element must not
occur before the cut, on neither side. -/
theorem append_cons_inj {α : Type} {a : α} {xs ys rest rest' : List α} (hxs : a ∉ xs)
    (hys : a ∉ ys) (h : xs ++ a :: rest = ys ++ a :: rest') : xs = ys ∧ rest = rest' := by
  induction xs generalizing ys with
  | nil =>
    cases ys with
    | nil => exact ⟨rfl, (List.cons.inj h).2⟩
    | cons y ys => exact absurd ((List.cons.inj h).1 ▸ List.mem_cons_self) hys
  | cons x xs ih =>
    cases ys with
    | nil => exact absurd ((List.cons.inj h).1 ▸ List.mem_cons_self) hxs
    | cons y ys =>
      obtain ⟨rfl, htail⟩ := List.cons.inj h
      have hsplit := ih (mt (List.mem_cons_of_mem x) hxs) (mt (List.mem_cons_of_mem x) hys) htail
      exact ⟨congrArg (x :: ·) hsplit.1, hsplit.2⟩

/-- The closing parenthesis shows where a list of slots ends, and with it how many there are. -/
theorem nextSlots_append_inj {ps ps' : List Literal} {n n' : Nat} {rest rest' : List Lexeme}
    (h : nextSlots ps n ++ .mark .closeParen :: rest =
      nextSlots ps' n' ++ .mark .closeParen :: rest') : n = n' ∧ rest = rest' := by
  obtain ⟨hslots, hrest⟩ := append_cons_inj (closeParen_notMem_nextSlots ps n)
    (closeParen_notMem_nextSlots ps' n') h
  have hlength := congrArg List.length hslots
  simp only [nextSlots, List.length_intersperse, List.length_map, List.length_range] at hlength
  exact ⟨by omega, hrest⟩

/-- What follows a mark is found again: its form is that of the mark, and the number of values is
the number of slots. -/
theorem Operands.unique {f : Form} {vs vs' : List Literal} {ls ls' rest rest' : List Lexeme}
    (h : Operands f vs ls) (h' : Operands f vs' ls') (hls : ls ++ rest = ls' ++ rest') :
    vs.length = vs'.length ∧ rest = rest' := by
  cases h with
  | null =>
    cases h'
    exact ⟨rfl, hls⟩
  | value v n =>
    cases h'
    exact ⟨rfl, (List.cons.inj hls).2⟩
  | list items ps =>
    cases h'
    rw [List.append_assoc, List.append_assoc] at hls
    exact nextSlots_append_inj hls

theorem ne_dot_of_constraint? {s : Selector} {m : Mark} {vs : List Literal} {q : Query}
    (h : constraint? s m vs = some q) : m ≠ .dot := by
  rintro rfl
  cases h

/-- A constraint starts with a name and a join with a parenthesis, so they cannot be confused. -/
theorem column_ne_openParen {s : Selector} {rest rest' : List Lexeme} :
    column s ++ rest ≠ .mark .openParen :: rest' := by
  intro h
  obtain ⟨_ | association, field⟩ := s <;> cases h

theorem joined_append (m : Mark) (left right rest : List Lexeme) :
    joined m left right ++ rest =
      .mark .openParen :: (left ++ .mark m :: (right ++ .mark .closeParen :: rest)) := by
  simp [joined]

/-- Two conditions that start one list of lexemes, with values that start one list, are the same and
stand for the same query. -/
theorem Reads.unique {ls ls' rest rest' : List Lexeme} {vs vs' more more' : List Literal}
    {q q' : Query} (h : Reads ls vs q) (h' : Reads ls' vs' q') (hls : ls ++ rest = ls' ++ rest')
    (hvs : vs ++ more = vs' ++ more') : q = q' ∧ rest = rest' ∧ more = more' := by
  induction h generalizing ls' vs' q' rest rest' more more' with
  | constraint hq hoperands =>
    rw [List.append_assoc] at hls
    cases h' with
    | constraint hq' hoperands' =>
      rw [List.append_assoc] at hls
      -- column and mark are the same, and the mark says what follows; then the values are as many
      obtain ⟨rfl, rfl, htail⟩ :=
        column_append_inj (ne_dot_of_constraint? hq) (ne_dot_of_constraint? hq') hls
      obtain ⟨hlength, rfl⟩ := hoperands.unique hoperands' htail
      obtain ⟨rfl, rfl⟩ := List.append_inj hvs hlength
      exact ⟨Option.some.inj (hq.symm.trans hq'), rfl, rfl⟩
    | joined _ _ _ =>
      rw [joined_append] at hls
      exact absurd hls column_ne_openParen
  | joined hm _ _ ihl ihr =>
    rw [joined_append] at hls
    cases h' with
    | constraint _ _ =>
      rw [List.append_assoc] at hls
      exact absurd hls.symm column_ne_openParen
    | joined hm' hl' hr' =>
      rw [joined_append] at hls
      rw [List.append_assoc, List.append_assoc] at hvs
      -- the left condition ends where its mark starts, and the right one at the closing parenthesis
      obtain ⟨rfl, hmark, hvs⟩ := ihl hl' (List.cons.inj hls).2 hvs
      obtain ⟨hm_eq, hright⟩ := List.cons.inj hmark
      cases hm_eq
      obtain ⟨rfl, hclose, rfl⟩ := ihr hr' hright hvs
      obtain rfl := Option.some.inj (hm.symm.trans hm')
      exact ⟨rfl, (List.cons.inj hclose).2, rfl⟩

/-! ## Statements -/

/-- A selector alone and the test that it is not null are built alike, so a walk does not see which
of them stands in a query. -/
theorem walk_explicit (root root' : Query) (options : Options) (q : Query) (ps : List Literal) :
    backend.walk ⟨root', options⟩ q.explicit ps = backend.walk ⟨root, options⟩ q ps := by
  induction q generalizing ps with
  | or l r ihl ihr
  | and l r ihl ihr =>
    simp only [Query.explicit, Backend.walk, ihl, ihr]
    rfl
  | present s =>
    rw [Query.explicit, Backend.walk, Backend.walk, Backend.adaptValue, adapt_eq, adapt_eq]
    cases s.permit options.allowed with
    | error reason => rfl
    | ok _ => cases options.ignoreCase <;> rfl
  | equality s op v => rfl
  | comparison s op v => rfl

/-- A query and its explicit form have the same statement or fail with the same error. -/
theorem ofQuery_explicit (q : Query) (options : Options) :
    ofQuery q.explicit options = ofQuery q options := by
  simp only [ofQuery, Backend.run, walk_explicit q q.explicit]
  rfl

/-- Statements with one text have the same lexemes, since both are what a reader finds. -/
theorem lexemes_eq_of_text_eq {q q' : Query} {options : Options} {st st' : Statement}
    (h : ofQuery q options = .ok st) (h' : ofQuery q' options = .ok st')
    (htext : st.text = st'.text) : st.lexemes = st'.lexemes := by
  have hscan := (fragment_of_ofQuery h).2.scan_text
  have hscan' := (fragment_of_ofQuery h').2.scan_text
  rw [htext, hscan'] at hscan
  exact (pieces_injective (Option.some.inj hscan)).symm

/-- Where case matters, two queries have the same text and the same values if and only if they are
the same, but for selectors alone that the other one tests not to be null. -/
theorem text_eq_and_params_eq_iff_explicit_eq {options : Options}
    (hcase : options.ignoreCase = false) {q q' : Query} {st st' : Statement}
    (h : ofQuery q options = .ok st) (h' : ofQuery q' options = .ok st') :
    st.text = st'.text ∧ st.params = st'.params ↔ q.explicit = q'.explicit := by
  constructor
  · rintro ⟨htext, hparams⟩
    have hlexemes := lexemes_eq_of_text_eq h h' htext
    obtain ⟨ls, hbuilds, hls⟩ := builds_of_ofQuery h
    obtain ⟨ls', hbuilds', hls'⟩ := builds_of_ofQuery h'
    rw [hls, hls'] at hlexemes
    -- the selections are the same, so the conditions are too
    have hcondition : ls = ls' := (List.cons.inj (List.append_cancel_left hlexemes)).2
    have hbound : bound false q = bound false q' := by
      rw [(fragment_of_ofQuery h).1, (fragment_of_ofQuery h').1, hcase] at hparams
      exact hparams
    have hunique := (hbuilds.reads hcase).unique (hbuilds'.reads hcase)
      (congrArg (· ++ []) hcondition) (congrArg (· ++ []) hbound)
    exact hunique.1
  · intro hexplicit
    rw [← ofQuery_explicit, hexplicit, ofQuery_explicit, h'] at h
    cases h
    exact ⟨rfl, rfl⟩

/-- A field may hold the text of a whole condition, and still no other query is written like it. -/
theorem text_eq_and_params_eq_iff_explicit_eq_quotes_in_names :
    ∃ st, ofQuery (.and (.present ⟨none, "a"⟩) (.present ⟨some "b", "c"⟩))
        { table := "t" } = .ok st ∧
      (∃ st', ofQuery (.present ⟨none, "a\" IS NOT NULL AND \"b\".\"c"⟩)
          { table := "t" } = .ok st' ∧
        ¬ (st.text = st'.text ∧ st.params = st'.params)) ∧
      ∃ st', ofQuery (.and (.comparison ⟨none, "a"⟩ .isNull (.bool false))
            (.present ⟨some "b", "c"⟩)) { table := "t" } = .ok st' ∧
        st.text = st'.text ∧ st.params = st'.params := by
  refine Exists.imp (fun st h => ⟨h, ?_, ?_⟩) ⟨_, rfl⟩
  · refine Exists.imp (fun st' h' => ⟨h', fun heq => ?_⟩) ⟨_, rfl⟩
    cases (text_eq_and_params_eq_iff_explicit_eq rfl h h').1 heq
  · refine Exists.imp (fun st' h' => ⟨h', ?_⟩) ⟨_, rfl⟩
    exact (text_eq_and_params_eq_iff_explicit_eq rfl h h').2 rfl

end Sql

end FilterQuery
