import Mathlib.Data.List.Forall2
import FilterQuery.Proofs.Sql.Fragments

/-!
# What a reader of a statement finds

The two facts that a database relies on when it is given a statement and the values for its
placeholders, both about the text of the statement and not about the lexemes it was made from.

* `scan_ofQuery`: no name breaks out of its quotes. The identifiers in the text are the columns, the
  table and the names of the query's selectors, and what stands around them is fixed.
* `placeholders_ofQuery`: the placeholders in the text are numbered from one on, there is one for
  each value, and the values are the ones that the query's constraints bind. Every `Call` of the
  backend does its part in this, from whatever values it starts.
-/

namespace FilterQuery.Sql

/-! ## The whole statement -/

theorem fragment_nameList (names : List String) (first : Nat) :
    Fragment (nameList names) names first 0 :=
  fragment_commas (identifiers_names names) (placeholders_names names)

/-- The selection has the names of the columns and of the table. Without columns it has a star in
their place. -/
theorem fragment_selection (options : Options) (first : Nat) :
    Fragment (selection options) (options.columns ++ [options.table]) first 0 := by
  have hcolumns : Fragment
      (if options.columns.isEmpty then [.mark .star] else nameList options.columns)
      options.columns first 0 := by
    cases hempty : options.columns with
    | nil => exact fragment_mark .star first
    | cons name names => exact fragment_nameList (name :: names) first
  have htable := (fragment_name options.table first).mark_cons (m := .fromTable) rfl
  exact (hcolumns.append_mark rfl htable).mark_cons (m := .select) rfl

/-- A statement holds the names of its selection and of its query's selectors, and one placeholder
for every value that the query's constraints bind. -/
theorem fragment_of_ofQuery {q : Query} {options : Options} {st : Statement}
    (h : ofQuery q options = .ok st) :
    st.params = bound options.ignoreCase q ∧
      Fragment st.lexemes (options.columns ++ [options.table] ++ q.selectors.flatMap namesOf)
        1 st.params.length := by
  obtain ⟨ls, hbuilds, hlexemes⟩ := builds_of_ofQuery h
  obtain ⟨hparams, htree⟩ := hbuilds.fragment
  rw [List.nil_append] at hparams
  rw [hlexemes, hparams]
  refine ⟨rfl, ?_⟩
  -- the walk starts without values, so its placeholders start at one
  have hcondition := htree.mark_cons (m := .whereHolds) rfl
  simpa using (fragment_selection options 1).append_mark rfl hcondition

theorem Fragment.scan_text {st : Statement} {names : List String} {first n : Nat}
    (h : Fragment st.lexemes names first n) : scan st.text.toList = some (pieces st.lexemes) := by
  rw [Statement.text, render, String.toList_ofList]
  exact h.scans

/-- The text of a statement ends outside of identifiers. Its identifiers are the selected columns,
the table, and for each constraint from left to right the association, if there is one, and the
field. Everything between them is a fixed word, a sign, a blank or a placeholder, and nothing is
left out. -/
theorem scan_ofQuery {q : Query} {options : Options} {st : Statement}
    (h : ofQuery q options = .ok st) :
    ∃ ps, scan st.text.toList = some ps ∧ ps.flatMap Piece.chars = st.text.toList ∧
      identifiers ps = options.columns ++ [options.table] ++
        q.selectors.flatMap (fun s => s.association.toList ++ [s.field]) ∧
      ∀ p ∈ ps, p.Allowed := by
  obtain ⟨-, hfragment⟩ := fragment_of_ofQuery h
  have hscan := hfragment.scan_text
  exact ⟨pieces st.lexemes, hscan, flatMap_chars_of_scan hscan, hfragment.identifiers_eq,
    fun _ hp => allowed_of_mem_pieces hp⟩

/-- Names that are empty, end in quotes, look like a placeholder or like the rest of a statement. -/
theorem scan_ofQuery_quotes_in_names :
    ∃ st, ofQuery (.or (.present ⟨some "\"", ""⟩)
          (.equality ⟨none, "$1\""⟩ .notEqual (.list [.bool true])))
        { table := "t\"\"", columns := ["", "a\" FROM \"b"] } = .ok st ∧
      ∃ ps, scan st.text.toList = some ps ∧ ps.flatMap Piece.chars = st.text.toList ∧
        identifiers ps = ["", "a\" FROM \"b", "t\"\"", "\"", "", "$1\""] ∧
        ∀ p ∈ ps, p.Allowed :=
  Exists.imp (fun _ h => ⟨h, scan_ofQuery h⟩) ⟨_, rfl⟩

/-! ## Single calls -/

/-- A call of the backend with values bound before it: on two subtrees, on a constraint, or at the
end of the walk. -/
inductive Call where
  | disjoin (left right : List Lexeme)
  | conjoin (left right : List Lexeme)
  | present (s : Selector)
  | equality (s : Selector) (op : Equality) (v : Literal)
  | comparison (s : Selector) (op : Comparison) (v : Literal)
  | finish (base tree : List Lexeme)

/-- The lexemes that a call makes, and the values that are bound after it. -/
def Call.run (ctx : Context Options) (ps : List Literal) :
    Call → Except Error (List Lexeme × List Literal)
  | disjoin left right => backend.disjoin ctx left right ps
  | conjoin left right => backend.conjoin ctx left right ps
  | present s => backend.present ctx s ps
  | equality s op v => backend.equality ctx s op v ps
  | comparison s op v => backend.comparison ctx s op v ps
  | finish base tree => (backend.finish ctx base tree ps).map fun st => (st.lexemes, st.params)

/-- The lexemes that a call is given. -/
def Call.operands : Call → List (List Lexeme)
  | disjoin left right => [left, right]
  | conjoin left right => [left, right]
  | finish base tree => [base, tree]
  | _ => []

/-- Two texts in parentheses with a mark between them are read as their parts, with those of the
marks around and between them. -/
theorem scans_joined {m : Mark} (hopens : m.opensApart = true) (hcloses : m.closesApart = true)
    {left right : List Lexeme} {ps ps' : List Piece} (hl : Scans left ps) (hr : Scans right ps') :
    Scans (joined m left right) ((Lexeme.mark .openParen).pieces ++
      (ps ++ ((Lexeme.mark m).pieces ++ (ps' ++ (Lexeme.mark .closeParen).pieces)))) := by
  have hright := hr.append_mark rfl (scans_single (.mark .closeParen))
  have hinner := hl.append_mark hopens (hright.mark_cons hcloses)
  have hjoined : joined m left right =
      .mark .openParen :: (left ++ .mark m :: (right ++ [.mark .closeParen])) := by
    simp [joined]
  rw [hjoined]
  exact hinner.mark_cons rfl

/-- The call extends the values `ps` to `ps'`. Its text `ls` has the placeholders of what the call
is given, and after them one for each new value, numbered after the values in `ps`. -/
def Call.Numbers (call : Call) (ps : List Literal) (ls : List Lexeme) (ps' : List Literal) : Prop :=
  ∃ added, ps' = ps ++ added ∧
    ∀ parts, List.Forall₂ Scans call.operands parts →
      ∃ own, Scans ls own ∧ placeholders own = parts.flatMap placeholders ++
        (List.range' (ps.length + 1) added.length).map placeholder

/-- A call on a constraint is given no text, so all placeholders are its own. -/
theorem Call.numbers_of_condition {call : Call} {s : Selector} {ps added : List Literal}
    {ls : List Lexeme} (hcall : call.operands = []) (h : Condition s ps ls added) :
    call.Numbers ps ls (ps ++ added) := by
  refine ⟨added, rfl, fun parts hparts => ?_⟩
  rw [hcall] at hparts
  cases hparts
  exact ⟨pieces ls, h.fragment.scans, h.fragment.placeholders_eq⟩

/-- A call on two texts puts their parts one after the other and binds nothing. -/
theorem Call.numbers_of_scans {call : Call} {left right ls : List Lexeme} (ps : List Literal)
    (hcall : call.operands = [left, right])
    (h : ∀ {pl pr}, Scans left pl → Scans right pr →
      ∃ own, Scans ls own ∧ placeholders own = placeholders pl ++ placeholders pr) :
    call.Numbers ps ls ps := by
  refine ⟨[], (List.append_nil ps).symm, fun parts hparts => ?_⟩
  rw [hcall] at hparts
  cases hparts with
  | cons hl hrest =>
    cases hrest with
    | cons hr hnil =>
      cases hnil
      simpa using h hl hr

/-- Every call that succeeds numbers its placeholders after the values it starts from. -/
theorem Call.numbers_of_run {ctx : Context Options} {call : Call} {ps ps' : List Literal}
    {ls : List Lexeme} (h : call.run ctx ps = .ok (ls, ps')) : call.Numbers ps ls ps' := by
  cases call with
  | disjoin left right
  | conjoin left right =>
    cases h
    exact numbers_of_scans ps rfl fun hl hr => ⟨_, scans_joined rfl rfl hl hr, by simp⟩
  | present s =>
    cases h
    have hcondition : Condition s ps (column s ++ [.mark .isNotNull]) [] := .null .isNotNull rfl
    simpa using (Call.present s).numbers_of_condition rfl hcondition
  -- a constraint is given no text, so all placeholders are its own
  | equality s op v =>
    obtain ⟨hcondition, rfl⟩ := condition_of_ofEquality (Except.ok.inj h)
    exact numbers_of_condition rfl hcondition
  | comparison s op v =>
    obtain ⟨hcondition, rfl⟩ := condition_of_ofComparison (ofCheck_eq_ok h)
    exact numbers_of_condition rfl hcondition
  | finish base tree =>
    cases h
    exact numbers_of_scans ps rfl fun hl hr => ⟨_, hl.append_mark rfl (hr.mark_cons rfl), by simp⟩

/-- The placeholders in the text of a statement are the ones from one on, as many as there are
values, and the values are the ones that the query's constraints bind, from left to right. Every
single call of the backend keeps the values it starts from and numbers its placeholders after
them. -/
theorem placeholders_ofQuery (options : Options) :
    (∀ q st, ofQuery q options = .ok st →
      ∃ ps, scan st.text.toList = some ps ∧
        placeholders ps = (List.range' 1 st.params.length).map placeholder ∧
        st.params = bound options.ignoreCase q) ∧
    ∀ root (call : Call) ps ls ps', call.run ⟨root, options⟩ ps = .ok (ls, ps') →
      call.Numbers ps ls ps' := by
  refine ⟨fun q st h => ?_, fun root call ps ls ps' h => Call.numbers_of_run h⟩
  obtain ⟨hparams, hfragment⟩ := fragment_of_ofQuery h
  exact ⟨pieces st.lexemes, hfragment.scan_text, hfragment.placeholders_eq, hparams⟩

/-- A pattern, a test for null that binds nothing and a list of two values, and a call that starts
with one value bound already. -/
theorem placeholders_ofQuery_patterns_and_lists :
    (∃ st, ofQuery (.and (.equality ⟨none, "name"⟩ .equal (.text "Jo*"))
          (.or (.comparison ⟨none, "died"⟩ .isNull (.bool true))
            (.equality ⟨some "home", "city"⟩ .notEqual (.list [.number (.integer 7), .text "Ur"]))))
        { table := "people", ignoreCase := true } = .ok st ∧
      st.params = [.text "jo%", .number (.integer 7), .text "ur"] ∧
      ∃ ps, scan st.text.toList = some ps ∧ placeholders ps = ["$1", "$2", "$3"]) ∧
    ∃ ls ps', (Call.equality ⟨none, "city"⟩ .equal (.list [.text "ur", .text "uruk"])).run
        ⟨.present ⟨none, "city"⟩, { table := "people", ignoreCase := true }⟩ [.bool true] =
          .ok (ls, ps') ∧
      (Call.equality ⟨none, "city"⟩ .equal (.list [.text "ur", .text "uruk"])).Numbers
        [.bool true] ls ps' := by
  have hall := placeholders_ofQuery { table := "people", ignoreCase := true }
  refine ⟨Exists.imp (fun _ h => ⟨h, ?_⟩) ⟨_, rfl⟩, _, _, rfl, hall.2 _ _ _ _ _ rfl⟩
  obtain ⟨ps, hscan, hplaceholders, hparams⟩ := hall.1 _ _ h
  rw [hparams] at hplaceholders ⊢
  exact ⟨by decide +kernel, ps, hscan, hplaceholders.trans (by decide +kernel)⟩

end FilterQuery.Sql
