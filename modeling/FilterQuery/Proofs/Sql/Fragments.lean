import FilterQuery.Proofs.Sql.Lexemes
import FilterQuery.Sql.Backend

/-!
# The fragments of a statement

What the walk through a query builds, said once. `Builds options q ps ls ps'` has one rule for each
kind of node: with the values `ps` bound before, the query `q` becomes the lexemes `ls`, and `ps'`
are the values bound after it. The conditions of single constraints have one of three forms
(`Condition`): a column that is tested for null, a column and one placeholder, or a column and a
list of placeholders.

The invariant of the walk is `Fragment ls names first n`: the text of `ls` is read back as what its
lexemes stand for, the identifiers in it are `names`, and the placeholders are the `n` ones from
`first` on.

* `builds_of_ofQuery`: a statement is the selection, `WHERE` and what the walk builds from the
  query.
* `Condition.fragment`, `Fragment.joined`: the single steps keep the invariant.
* `Builds.fragment`: so a whole walk does.
-/

namespace FilterQuery.Sql

/-! ## What a constraint binds -/

/-- The value of a constraint as the backend compares it. -/
def adapted (ignoreCase : Bool) (v : Literal) : Literal :=
  if ignoreCase then v.mapText Text.lowerCase else v

/-- The values that an equality constraint with a literal binds. -/
def boundByEquality : Literal → List Literal
  | .text t => if '*' ∈ t.toList then [.text (likePattern t)] else [.text t]
  | .list items => items
  | v => [v]

/-- The values that a comparison with a literal binds. -/
def boundByComparison : Comparison → Literal → List Literal
  | .isNull, _ => []
  | _, v => [v]

/-- The values that the constraints of a query bind, from left to right. -/
def bound (ignoreCase : Bool) : Query → List Literal
  | .or l r => bound ignoreCase l ++ bound ignoreCase r
  | .and l r => bound ignoreCase l ++ bound ignoreCase r
  | .present _ => []
  | .equality _ _ v => boundByEquality (adapted ignoreCase v)
  | .comparison _ op v => boundByComparison op (adapted ignoreCase v)

/-! ## What the walk builds -/

/-- With values bound before it, a query becomes a list of lexemes, with more values bound. -/
inductive Builds (options : Options) :
    Query → List Literal → List Lexeme → List Literal → Prop where
  | or {l r : Query} {left right : List Lexeme} {ps ps' ps'' : List Literal}
      (hl : Builds options l ps left ps') (hr : Builds options r ps' right ps'') :
      Builds options (.or l r) ps (joined .disjunction left right) ps''
  | and {l r : Query} {left right : List Lexeme} {ps ps' ps'' : List Literal}
      (hl : Builds options l ps left ps') (hr : Builds options r ps' right ps'') :
      Builds options (.and l r) ps (joined .conjunction left right) ps''
  | present {s : Selector} {ps : List Literal} (hs : s.permit options.allowed = .ok ()) :
      Builds options (.present s) ps (column s ++ [.mark .isNotNull]) ps
  | equality {s : Selector} {op : Equality} {v : Literal} {ls : List Lexeme} {ps ps' : List Literal}
      (hs : s.permit options.allowed = .ok ())
      (h : ofEquality options.ignoreCase s op (adapted options.ignoreCase v) ps = (ls, ps')) :
      Builds options (.equality s op v) ps ls ps'
  | comparison {s : Selector} {op : Comparison} {v : Literal} {ls : List Lexeme}
      {ps ps' : List Literal} (hs : s.permit options.allowed = .ok ())
      (h : ofComparison options.ignoreCase s op (adapted options.ignoreCase v) ps = .ok (ls, ps')) :
      Builds options (.comparison s op v) ps ls ps'

theorem ofCheck_eq_ok {α : Type} {x : Except Refusal α} {a : α} (h : ofCheck x = .ok a) :
    x = .ok a := by
  cases x with
  | error reason => cases h
  | ok a' => cases h; rfl

/-- To adapt a constraint is to check its selector and to lower the texts of its value, if case is
ignored. -/
theorem adapt_eq (ctx : Context Options) (s : Selector) (v : Option Literal) :
    backend.adapt ctx s v = (do
      ofCheck (s.permit ctx.options.allowed)
      return (s, v.map (adapted ctx.options.ignoreCase))) := by
  show (do
    ofCheck (s.permit ctx.options.allowed)
    return (s, if ctx.options.ignoreCase then v.map (Literal.mapText Text.lowerCase) else v)) = _
  cases v <;> cases ctx.options.ignoreCase <;> rfl

theorem adapt_eq_ok {ctx : Context Options} {s s' : Selector} {v v' : Option Literal}
    (h : backend.adapt ctx s v = .ok (s', v')) :
    s.permit ctx.options.allowed = .ok () ∧ s' = s ∧
      v' = v.map (adapted ctx.options.ignoreCase) := by
  obtain ⟨_, hpermit, h⟩ := exists_of_bind_eq_ok h
  refine ⟨ofCheck_eq_ok hpermit, ?_⟩
  cases h
  refine ⟨rfl, ?_⟩
  cases v <;> cases hcase : ctx.options.ignoreCase <;> simp [adapted]

theorem adaptValue_eq_ok {ctx : Context Options} {s s' : Selector} {v v' : Literal}
    (h : backend.adaptValue ctx s v = .ok (s', v')) :
    s.permit ctx.options.allowed = .ok () ∧ s' = s ∧ v' = adapted ctx.options.ignoreCase v := by
  obtain ⟨⟨s₁, v₁⟩, hadapt, h⟩ := exists_of_bind_eq_ok h
  obtain ⟨hpermit, rfl, rfl⟩ := adapt_eq_ok hadapt
  cases h
  exact ⟨hpermit, rfl, rfl⟩

/-- What a walk gives is built by the rules, one for each node that it comes to. -/
theorem builds_of_walk {ctx : Context Options} {q : Query} {ps ps' : List Literal}
    {ls : List Lexeme} (h : backend.walk ctx q ps = .ok (ls, ps')) :
    Builds ctx.options q ps ls ps' := by
  induction q generalizing ps ls ps' with
  | or l r ihl ihr =>
    -- the left operand is walked first, and the right one starts from the values that it leaves
    obtain ⟨⟨left, ps₁⟩, hl, hrest⟩ := exists_of_bind_eq_ok h
    obtain ⟨⟨right, ps₂⟩, hr, hstep⟩ := exists_of_bind_eq_ok hrest
    cases hstep
    exact .or (ihl hl) (ihr hr)
  | and l r ihl ihr =>
    obtain ⟨⟨left, ps₁⟩, hl, hrest⟩ := exists_of_bind_eq_ok h
    obtain ⟨⟨right, ps₂⟩, hr, hstep⟩ := exists_of_bind_eq_ok hrest
    cases hstep
    exact .and (ihl hl) (ihr hr)
  | present s =>
    obtain ⟨⟨s', v'⟩, hadapt, hstep⟩ := exists_of_bind_eq_ok h
    obtain ⟨hpermit, rfl, -⟩ := adapt_eq_ok hadapt
    cases hstep
    exact .present hpermit
  | equality s op v =>
    obtain ⟨⟨s', v'⟩, hadapt, hstep⟩ := exists_of_bind_eq_ok h
    obtain ⟨hpermit, rfl, rfl⟩ := adaptValue_eq_ok hadapt
    exact .equality hpermit (Except.ok.inj hstep)
  | comparison s op v =>
    obtain ⟨⟨s', v'⟩, hadapt, hstep⟩ := exists_of_bind_eq_ok h
    obtain ⟨hpermit, rfl, rfl⟩ := adaptValue_eq_ok hadapt
    exact .comparison hpermit (ofCheck_eq_ok hstep)

/-- A statement is the selection and the condition that the walk builds, starting without values. A
statement without a table does not come about, so the table is there to be selected from. -/
theorem builds_of_ofQuery {q : Query} {options : Options} {st : Statement}
    (h : ofQuery q options = .ok st) :
    ∃ ls, Builds options q [] ls st.params ∧
      st.lexemes = selection options ++ .mark .whereHolds :: ls := by
  obtain ⟨⟨base, ps⟩, hstart, hrest⟩ := exists_of_bind_eq_ok h
  obtain ⟨⟨ls, ps'⟩, hwalk, hfinish⟩ := exists_of_bind_eq_ok hrest
  simp only [backend] at hstart
  -- without a table there is no statement
  split at hstart
  · cases hstart
  · cases hstart
    cases hfinish
    exact ⟨ls, builds_of_walk hwalk, rfl⟩

/-! ## Forms of conditions -/

/-- The forms of the condition of a constraint on a selector. The values `ps` are bound before it,
and it binds the values of its fourth argument. -/
inductive Condition (s : Selector) (ps : List Literal) : List Lexeme → List Literal → Prop where
  | null (m : Mark) (hm : m.opensApart = true) : Condition s ps (column s ++ [.mark m]) []
  | value (lower : Bool) (m : Mark) (hopens : m.opensApart = true) (hcloses : m.closesApart = true)
      (v : Literal) : Condition s ps (lowered lower (column s) ++ [.mark m, nextSlot ps]) [v]
  | list (lower : Bool) (m : Mark) (hopens : m.opensApart = true) (hcloses : m.closesApart = true)
      (items : List Literal) : Condition s ps (lowered lower (column s) ++
        .mark m :: nextSlots ps items.length ++ [.mark .closeParen]) items

/-- The condition of an equality constraint has one of the three forms and binds the values that
`boundByEquality` lists, behind those bound before. -/
theorem condition_of_ofEquality {ignoreCase : Bool} {s : Selector} {op : Equality} {v : Literal}
    {ps ps' : List Literal} {ls : List Lexeme}
    (h : ofEquality ignoreCase s op v ps = (ls, ps')) :
    Condition s ps ls (boundByEquality v) ∧ ps' = ps ++ boundByEquality v := by
  -- a scalar is compared by one of the two marks of equality
  have hscalar (v : Literal) : Condition s ps
      (withValue (lowered (ignoreCase && v.isText) (column s))
        (if op == .notEqual then .notEqual else .equal) v ps).1 [v] := by
    apply Condition.value <;> cases op <;> rfl
  cases v with
  | text t =>
    simp only [ofEquality, List.contains_iff_mem] at h
    simp only [boundByEquality]
    split at h
    -- a pattern is compared with the column as it is, whatever the case
    next hstar =>
      cases h
      rw [if_pos hstar]
      refine ⟨?_, rfl⟩
      apply Condition.value false <;> cases op <;> cases ignoreCase <;> rfl
    next hstar =>
      cases h
      rw [if_neg hstar]
      exact ⟨hscalar _, rfl⟩
  | list items =>
    cases h
    refine ⟨?_, rfl⟩
    apply Condition.list <;> cases op <;> rfl
  | bool b =>
    cases h
    exact ⟨hscalar _, rfl⟩
  | number n =>
    cases h
    exact ⟨hscalar _, rfl⟩

/-- The condition of a comparison has one of the three forms and binds the values that
`boundByComparison` lists, behind those bound before. -/
theorem condition_of_ofComparison {ignoreCase : Bool} {s : Selector} {op : Comparison} {v : Literal}
    {ps ps' : List Literal} {ls : List Lexeme}
    (h : ofComparison ignoreCase s op v ps = .ok (ls, ps')) :
    Condition s ps ls (boundByComparison op v) ∧ ps' = ps ++ boundByComparison op v := by
  -- what an operator demands decides between a slot and none
  unfold ofComparison at h
  cases op with
  | bound b =>
    simp only [Comparison.demand] at h
    cases hordered : v.isOrdered with
    | false => simp [hordered] at h
    | true =>
      simp only [hordered, if_true] at h
      cases h
      refine ⟨?_, rfl⟩
      apply Condition.value <;> cases b <;> rfl
  | isNull =>
    simp only [Comparison.demand] at h
    cases hbool : v.toBool? with
    | none => simp [hbool] at h
    | some expected =>
      simp only [hbool] at h
      cases h
      refine ⟨?_, (List.append_nil ps).symm⟩
      apply Condition.null
      cases expected <;> rfl
  | custom name => cases h

/-! ## The invariant -/

/-- The text of the lexemes is read back as what they stand for, with these identifiers and with the
`n` placeholders from `first` on. -/
structure Fragment (ls : List Lexeme) (names : List String) (first n : Nat) : Prop where
  scans : Scans ls (pieces ls)
  identifiers_eq : identifiers (pieces ls) = names
  placeholders_eq : placeholders (pieces ls) = (List.range' first n).map placeholder

theorem fragment_mark (m : Mark) (first : Nat) : Fragment [.mark m] [] first 0 := by
  refine ⟨?_, ?_, ?_⟩
  · simpa using scans_single (.mark m)
  · simp
  · simp

theorem fragment_name (name : String) (first : Nat) : Fragment [.name name] [name] first 0 :=
  ⟨scans_single (.name name), rfl, rfl⟩

theorem fragment_slot (n : Nat) : Fragment [.slot n] [] n 1 :=
  ⟨scans_single (.slot n), rfl, by simp⟩

/-- Commas between lexemes add neither identifiers nor placeholders. -/
theorem fragment_commas {ls : List Lexeme} {names : List String} {first n : Nat}
    (hnames : identifiers (pieces ls) = names)
    (hslots : placeholders (pieces ls) = (List.range' first n).map placeholder) :
    Fragment (ls.intersperse (.mark .comma)) names first n := by
  refine ⟨scans_commas ls, ?_, ?_⟩
  · rw [identifiers_commas, hnames]
  · rw [placeholders_commas, hslots]

/-- Fragments are put together at a mark that does not run into what stands before it. The
placeholders of the second one go on where those of the first one end. -/
theorem Fragment.append_mark {ls rest : List Lexeme} {names names' : List String}
    {first n n' : Nat} {m : Mark} (h : Fragment ls names first n) (hm : m.opensApart = true)
    (hrest : Fragment (.mark m :: rest) names' (first + n) n') :
    Fragment (ls ++ .mark m :: rest) (names ++ names') first (n + n') := by
  constructor
  · rw [pieces_append]
    exact h.scans.append_mark hm hrest.scans
  · rw [pieces_append, identifiers_append, h.identifiers_eq, hrest.identifiers_eq]
  · rw [pieces_append, placeholders_append, h.placeholders_eq, hrest.placeholders_eq,
      ← List.map_append, List.range'_append_1]

/-- A mark that does not run into what stands after it may be put in front of a fragment. -/
theorem Fragment.mark_cons {rest : List Lexeme} {names : List String} {first n : Nat} {m : Mark}
    (hm : m.closesApart = true) (h : Fragment rest names first n) :
    Fragment (.mark m :: rest) names first n := by
  constructor
  · exact h.scans.mark_cons hm
  · rw [pieces_cons, identifiers_append, identifiers_mark, h.identifiers_eq, List.nil_append]
  · rw [pieces_cons, placeholders_append, placeholders_mark, h.placeholders_eq, List.nil_append]

theorem Fragment.concat_mark {ls : List Lexeme} {names : List String} {first n : Nat} {m : Mark}
    (h : Fragment ls names first n) (hm : m.opensApart = true) :
    Fragment (ls ++ [.mark m]) names first n := by
  simpa using h.append_mark hm (fragment_mark m (first + n))

/-! ## Steps of the walk -/

/-- The identifiers that a selector stands for. -/
def namesOf (s : Selector) : List String := s.association.toList ++ [s.field]

/-- A column has the names of its selector, joined by a dot if there are two. The dot is the only
mark that stands between names without a blank. -/
theorem fragment_column (s : Selector) (first : Nat) : Fragment (column s) (namesOf s) first 0 := by
  obtain ⟨_ | association, field⟩ := s
  · exact fragment_name field first
  · exact (fragment_name association first).append_mark rfl
      ((fragment_name field first).mark_cons rfl)

theorem fragment_lowered (lower : Bool) (s : Selector) (first : Nat) :
    Fragment (lowered lower (column s)) (namesOf s) first 0 := by
  have hcolumn := fragment_column s first
  cases lower with
  | false => exact hcolumn
  | true => exact (hcolumn.concat_mark rfl).mark_cons rfl

/-- The next slots are numbered from the one behind the values bound before. The numbers are given
as an offset in the definition and as a range in the invariant. -/
theorem fragment_nextSlots (ps : List Literal) (n : Nat) :
    Fragment (nextSlots ps n) [] (ps.length + 1) n := by
  have hslots : (List.range n).map (fun i => Lexeme.slot (ps.length + 1 + i)) =
      (List.range' (ps.length + 1) n).map Lexeme.slot := by
    rw [List.range'_eq_map_range, List.map_map]
    rfl
  rw [nextSlots, hslots]
  exact fragment_commas (identifiers_slots _) (placeholders_slots _)

/-- A condition has the names of its selector and one placeholder for every value it binds. The
three forms differ in how many placeholders there are, and in the marks around them. -/
theorem Condition.fragment {s : Selector} {ps bound : List Literal} {ls : List Lexeme}
    (h : Condition s ps ls bound) : Fragment ls (namesOf s) (ps.length + 1) bound.length := by
  cases h with
  | null m hm => exact (fragment_column s _).concat_mark hm
  | value lower m hopens hcloses v =>
    have hslot := (fragment_slot (ps.length + 1)).mark_cons hcloses
    simpa [nextSlot] using (fragment_lowered lower s _).append_mark hopens hslot
  | list lower m hopens hcloses _ =>
    have hslots := (fragment_nextSlots ps bound.length).mark_cons hcloses
    have hlist := (fragment_lowered lower s _).append_mark hopens hslots
    simpa using hlist.concat_mark (m := .closeParen) rfl

/-- Two fragments in parentheses with a mark between them are a fragment. -/
theorem Fragment.joined {m : Mark} (hopens : m.opensApart = true) (hcloses : m.closesApart = true)
    {left right : List Lexeme} {names names' : List String} {first n n' : Nat}
    (hl : Fragment left names first n) (hr : Fragment right names' (first + n) n') :
    Fragment (Sql.joined m left right) (names ++ names') first (n + n') := by
  have hinner := hl.append_mark hopens (hr.mark_cons hcloses)
  exact (hinner.mark_cons rfl).concat_mark rfl

/-- What a walk builds is a fragment with the names of the query's selectors and one placeholder for
every value that its constraints bind. -/
theorem Builds.fragment {options : Options} {q : Query} {ps ps' : List Literal} {ls : List Lexeme}
    (h : Builds options q ps ls ps') :
    ps' = ps ++ bound options.ignoreCase q ∧
      Fragment ls (q.selectors.flatMap namesOf) (ps.length + 1)
        (bound options.ignoreCase q).length := by
  induction h with
  | or _ _ ihl ihr
  | and _ _ ihl ihr =>
    obtain ⟨rfl, hl⟩ := ihl
    obtain ⟨rfl, hr⟩ := ihr
    refine ⟨List.append_assoc .., ?_⟩
    -- the right operand starts after the values of the left one, and so do its placeholders
    rw [Query.selectors, List.flatMap_append, bound, List.length_append]
    rw [List.length_append, Nat.add_right_comm] at hr
    exact hl.joined rfl rfl hr
  | present =>
    refine ⟨(List.append_nil _).symm, ?_⟩
    rw [Query.selectors, List.flatMap_singleton]
    exact (Condition.null .isNotNull rfl).fragment
  | equality _ h =>
    obtain ⟨hcondition, rfl⟩ := condition_of_ofEquality h
    rw [Query.selectors, List.flatMap_singleton]
    exact ⟨rfl, hcondition.fragment⟩
  | comparison _ h =>
    obtain ⟨hcondition, rfl⟩ := condition_of_ofComparison h
    rw [Query.selectors, List.flatMap_singleton]
    exact ⟨rfl, hcondition.fragment⟩

end FilterQuery.Sql
