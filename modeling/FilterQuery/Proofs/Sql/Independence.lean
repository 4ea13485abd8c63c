import Mathlib.Data.List.Forall2
import FilterQuery.Proofs.Sql.Fragments
import FilterQuery.Proofs.Text.LowerCase

/-!
# The text of a statement does not depend on values

Values reach a database through placeholders, so two queries that differ only in their values have
statements with one text. What the text may depend on is the kind of a value, whether it is a
pattern, and the truth value of a test for null (`Literal.Alike`, `Query.Alike`).

The argument compares two walks by what is `seen` of them: the lexemes, and how many values are
bound.

* `seen_ofEquality`, `seen_ofComparison`: the conditions of alike constraints are seen alike.
* `seen_walk`: so are two walks through alike queries, and if one fails, both do with one error.
* `text_ofQuery_of_alike`: the same for whole statements.
-/

namespace FilterQuery

/-! ## Alike queries -/

/-- Two literals of one kind; lists are compared item by item. -/
inductive Literal.SameKind : Literal → Literal → Prop where
  | bool (a b : Bool) : SameKind (.bool a) (.bool b)
  | integer (m n : Int) : SameKind (.number (.integer m)) (.number (.integer n))
  | float (x y : Binary64) : SameKind (.number (.float x)) (.number (.float y))
  | text (s t : String) : SameKind (.text s) (.text t)
  | list {items items' : List Literal} (h : List.Forall₂ SameKind items items') :
      SameKind (.list items) (.list items')

/-- The literal is a text with a star. -/
def Literal.HasStar : Literal → Prop
  | .text t => '*' ∈ t.toList
  | _ => False

/-- Two literals of one kind that agree on being a text with a star. The items of a list are never
patterns, so it does not matter where they have stars. -/
structure Literal.Alike (v v' : Literal) : Prop where
  sameKind : v.SameKind v'
  stars : v.HasStar ↔ v'.HasStar

/-- Two queries that differ at most in their values, which are alike. Tests for null have the same
value if it is a truth value. -/
inductive Query.Alike : Query → Query → Prop where
  | or {l l' r r' : Query} (hl : Alike l l') (hr : Alike r r') : Alike (.or l r) (.or l' r')
  | and {l l' r r' : Query} (hl : Alike l l') (hr : Alike r r') : Alike (.and l r) (.and l' r')
  | present (s : Selector) : Alike (.present s) (.present s)
  | equality (s : Selector) (op : Equality) {v v' : Literal} (h : v.Alike v') :
      Alike (.equality s op v) (.equality s op v')
  | comparison (s : Selector) (op : Comparison) {v v' : Literal} (h : v.Alike v')
      (hnull : op = .isNull → v.toBool? = v'.toBool?) :
      Alike (.comparison s op v) (.comparison s op v')

namespace Sql

/-! ## Alike values -/

theorem isText_adapted (ignoreCase : Bool) (v : Literal) :
    (adapted ignoreCase v).isText = v.isText := by
  cases ignoreCase <;> cases v <;> rfl

theorem adapted_list (ignoreCase : Bool) (items : List Literal) :
    adapted ignoreCase (.list items) = .list (items.map (adapted ignoreCase)) := by
  cases ignoreCase with
  | false => exact congrArg Literal.list (List.map_id items).symm
  | true => exact congrArg Literal.list (Literal.mapTextItems_eq_map _ items)

theorem isText_eq_of_sameKind {v v' : Literal} (h : v.SameKind v') : v.isText = v'.isText := by
  cases h <;> rfl

/-- Of two lists of the same kinds, both have a text or none has, so both columns are in lower case
or none is. -/
theorem any_isText_eq_of_sameKind (ignoreCase : Bool) {items items' : List Literal}
    (h : List.Forall₂ Literal.SameKind items items') :
    (items.map (adapted ignoreCase)).any Literal.isText =
      (items'.map (adapted ignoreCase)).any Literal.isText := by
  induction h with
  | nil => rfl
  | cons h _ ih =>
    rw [List.map_cons, List.map_cons, List.any_cons, List.any_cons, isText_adapted,
      isText_adapted, isText_eq_of_sameKind h, ih]

/-- Two texts that agree on having a star agree on it in lower case as well. The star is no letter,
and lower-casing neither makes nor removes such a character. -/
theorem exists_adapted_text (ignoreCase : Bool) {s t : String}
    (hstar : '*' ∈ s.toList ↔ '*' ∈ t.toList) :
    ∃ s' t', adapted ignoreCase (.text s) = .text s' ∧ adapted ignoreCase (.text t) = .text t' ∧
      ('*' ∈ s'.toList ↔ '*' ∈ t'.toList) := by
  cases ignoreCase with
  | false => exact ⟨s, t, rfl, rfl, hstar⟩
  | true =>
    refine ⟨Text.lowerCase s, Text.lowerCase t, rfl, rfl, ?_⟩
    have hsmall : '*'.toNat < 'A'.toNat := by decide
    rw [Text.mem_lowerCase_iff hsmall, Text.mem_lowerCase_iff hsmall, hstar]

/-- Operators look at the kind of a value, and a test for null at its truth value too, so alike
values are refused or admitted alike. -/
theorem demand_eq_of_sameKind (ignoreCase : Bool) {op : Comparison} {v v' : Literal}
    (h : v.SameKind v') (hnull : op = .isNull → v.toBool? = v'.toBool?) :
    op.demand (adapted ignoreCase v) = op.demand (adapted ignoreCase v') := by
  cases op with
  | bound b => cases h <;> cases ignoreCase <;> rfl
  | custom name => rfl
  | isNull =>
    have hbool := hnull rfl
    cases h with
    | bool a b =>
      cases Option.some.inj hbool
      rfl
    | integer m n => cases ignoreCase <;> rfl
    | float x y => cases ignoreCase <;> rfl
    | text s t => cases ignoreCase <;> rfl
    | list _ => cases ignoreCase <;> rfl

/-! ## What is seen of a walk -/

/-- What a reader of the text can see of a part of a statement and of the values bound with it. -/
def seen (made : List Lexeme × List Literal) : List Lexeme × Nat := (made.1, made.2.length)

/-- Two parts are seen alike if they have the same lexemes and bind as many values. -/
theorem seen_eq_iff {made made' : List Lexeme × List Literal} :
    seen made = seen made' ↔ made.1 = made'.1 ∧ made.2.length = made'.2.length :=
  Prod.ext_iff

/-- A condition with one value shows the number of its placeholder and not the value. The number
depends on how many values are bound before, and not on what they are. -/
theorem seen_withValue (ls : List Lexeme) (m : Mark) (v v' : Literal) {ps ps' : List Literal}
    (hps : ps.length = ps'.length) :
    seen (withValue ls m v ps) = seen (withValue ls m v' ps') := by
  simp [seen, withValue, nextSlot, hps]

/-- Equality constraints with alike values are seen alike. Whether the value is a pattern decides
about the operator, so both have to be patterns or none. -/
theorem seen_ofEquality (ignoreCase : Bool) (s : Selector) (op : Equality) {v v' : Literal}
    (h : v.Alike v') {ps ps' : List Literal} (hps : ps.length = ps'.length) :
    seen (ofEquality ignoreCase s op (adapted ignoreCase v) ps) =
      seen (ofEquality ignoreCase s op (adapted ignoreCase v') ps') := by
  obtain ⟨hkind, hstars⟩ := h
  cases hkind with
  | bool a b => cases ignoreCase <;> exact seen_withValue _ _ _ _ hps
  | integer m n => cases ignoreCase <;> exact seen_withValue _ _ _ _ hps
  | float x y => cases ignoreCase <;> exact seen_withValue _ _ _ _ hps
  | text s t =>
    -- both texts are patterns or none is, also in lower case
    obtain ⟨t, t', ht, ht', hstar⟩ := exists_adapted_text ignoreCase hstars
    rw [ht, ht']
    simp only [ofEquality, List.contains_iff_mem, hstar]
    split <;> exact seen_withValue _ _ _ _ hps
  | list hitems =>
    rw [adapted_list, adapted_list]
    simp only [ofEquality, seen, nextSlots, List.length_append, List.length_map, hps,
      hitems.length_eq, any_isText_eq_of_sameKind ignoreCase hitems]

/-- Comparisons with alike values are seen alike, or fail with the same error. -/
theorem seen_ofComparison (ignoreCase : Bool) (s : Selector) (op : Comparison) {v v' : Literal}
    (h : v.SameKind v') (hnull : op = .isNull → v.toBool? = v'.toBool?) {ps ps' : List Literal}
    (hps : ps.length = ps'.length) :
    (ofComparison ignoreCase s op (adapted ignoreCase v) ps).map seen =
      (ofComparison ignoreCase s op (adapted ignoreCase v') ps').map seen := by
  have hdemand := demand_eq_of_sameKind ignoreCase h hnull
  have htext : (adapted ignoreCase v).isText = (adapted ignoreCase v').isText := by
    rw [isText_adapted, isText_adapted, isText_eq_of_sameKind h]
  rw [ofComparison, ofComparison, hdemand, htext]
  cases op.demand (adapted ignoreCase v') with
  | error reason => rfl
  | ok demand =>
    cases demand with
    | order b => exact congrArg Except.ok (seen_withValue _ _ _ _ hps)
    | null expected => simp only [Except.map, seen, hps]

/-- What is seen of two computations is the same, if it is the same of their first steps and the
rest depends on what is seen only. -/
theorem map_seen_bind {ε α β : Type} {g : β → α} {x y : Except ε (List Lexeme × List Literal)}
    {f f' : List Lexeme × List Literal → Except ε β} (hxy : x.map seen = y.map seen)
    (hf : ∀ a b, seen a = seen b → (f a).map g = (f' b).map g) :
    (x >>= f).map g = (y >>= f').map g := by
  cases x with
  | error e =>
    cases y with
    | error e' => cases hxy; rfl
    | ok b => cases hxy
  | ok a =>
    cases y with
    | error e' => cases hxy
    | ok b => exact hf a b (Except.ok.inj hxy)

theorem map_ofCheck {α β : Type} (f : α → β) (x : Except Refusal α) :
    (ofCheck x).map f = ofCheck (x.map f) := by
  cases x <;> rfl

theorem seen_joined (m : Mark) {left left' right right' : List Lexeme × List Literal}
    (hleft : seen left = seen left') (hright : seen right = seen right') :
    seen (joined m left.1 right.1, right.2) = seen (joined m left'.1 right'.1, right'.2) := by
  obtain ⟨hleft, -⟩ := seen_eq_iff.1 hleft
  obtain ⟨hright, hbound⟩ := seen_eq_iff.1 hright
  exact seen_eq_iff.2 ⟨by rw [hleft, hright], hbound⟩

/-- Two walks through alike queries fail with the same error, or build the same lexemes and bind the
same number of values. -/
theorem seen_walk (root root' : Query) (options : Options) {q q' : Query} (h : q.Alike q')
    {ps ps' : List Literal} (hps : ps.length = ps'.length) :
    (backend.walk ⟨root, options⟩ q ps).map seen =
      (backend.walk ⟨root', options⟩ q' ps').map seen := by
  induction h generalizing ps ps' with
  | or _ _ ihl ihr =>
    refine map_seen_bind (ihl hps) fun left left' hleft => ?_
    refine map_seen_bind (ihr (seen_eq_iff.1 hleft).2) fun right right' hright => ?_
    exact congrArg Except.ok (seen_joined .disjunction hleft hright)
  | and _ _ ihl ihr =>
    refine map_seen_bind (ihl hps) fun left left' hleft => ?_
    refine map_seen_bind (ihr (seen_eq_iff.1 hleft).2) fun right right' hright => ?_
    exact congrArg Except.ok (seen_joined .conjunction hleft hright)
  -- the selectors of two constraints are the same, so both are permitted or none is
  | present s =>
    rw [Backend.walk, Backend.walk, adapt_eq, adapt_eq]
    cases s.permit options.allowed with
    | error reason => rfl
    | ok _ => exact congrArg (fun n => Except.ok (_, n)) hps
  | equality s op h =>
    rw [Backend.walk, Backend.walk, Backend.adaptValue, Backend.adaptValue, adapt_eq, adapt_eq]
    cases s.permit options.allowed with
    | error reason => rfl
    | ok _ => exact congrArg Except.ok (seen_ofEquality options.ignoreCase s op h hps)
  | comparison s op h hnull =>
    rw [Backend.walk, Backend.walk, Backend.adaptValue, Backend.adaptValue, adapt_eq, adapt_eq]
    cases s.permit options.allowed with
    | error reason => rfl
    | ok _ =>
      have hseen := seen_ofComparison options.ignoreCase s op h.sameKind hnull hps
      show (ofCheck _).map seen = (ofCheck _).map seen
      -- what is seen can be read off before the check is turned into an error of the backend
      rw [map_ofCheck, map_ofCheck]
      exact congrArg ofCheck hseen

/-- Statements of alike queries have one text and the same number of values. If one of two alike
queries has no statement, none has, for the same reason. -/
theorem text_ofQuery_of_alike {q q' : Query} (h : q.Alike q') (options : Options) :
    (ofQuery q options).map (fun st => (st.text, st.params.length)) =
      (ofQuery q' options).map (fun st => (st.text, st.params.length)) := by
  -- the selection does not look at the query, so the two differ in their walks at most
  refine map_seen_bind rfl fun begun begun' hbegun => ?_
  obtain ⟨hbase, hbound⟩ := seen_eq_iff.1 hbegun
  refine map_seen_bind (seen_walk q q' options h hbound) fun tree tree' htree => ?_
  obtain ⟨hlexemes, hparams⟩ := seen_eq_iff.1 htree
  show Except.ok (render (begun.1 ++ .mark .whereHolds :: tree.1), tree.2.length) =
    .ok (render (begun'.1 ++ .mark .whereHolds :: tree'.1), tree'.2.length)
  rw [hbase, hlexemes, hparams]

/-- A pattern, and a list of a number and a text, against values with quotes, a dollar sign and a
star in an item of the list. -/
theorem text_ofQuery_of_alike_patterns_and_lists :
    ∃ st st',
      ofQuery (.and (.equality ⟨none, "name"⟩ .equal (.text "Jo*"))
          (.equality ⟨some "home", "city"⟩ .notEqual (.list [.number (.integer 7), .text "Ur"])))
        { table := "people", ignoreCase := true } = .ok st ∧
      ofQuery (.and (.equality ⟨none, "name"⟩ .equal (.text "*'; DROP TABLE people; --"))
          (.equality ⟨some "home", "city"⟩ .notEqual (.list [.number (.integer 0), .text "$*"])))
        { table := "people", ignoreCase := true } = .ok st' ∧
      st.text = st'.text ∧ st.params.length = st'.params.length := by
  refine ⟨_, _, rfl, rfl, ?_⟩
  have hstar : '*' ∈ "Jo*".toList ↔ '*' ∈ "*'; DROP TABLE people; --".toList := by decide
  have hitems : List.Forall₂ Literal.SameKind
      [.number (.integer 7), .text "Ur"] [.number (.integer 0), .text "$*"] :=
    .cons (.integer 7 0) (.cons (.text "Ur" "$*") .nil)
  have htexts := text_ofQuery_of_alike
    (.and (.equality ⟨none, "name"⟩ .equal ⟨.text _ _, hstar⟩)
      (.equality ⟨some "home", "city"⟩ .notEqual ⟨.list hitems, Iff.rfl⟩))
    { table := "people", ignoreCase := true }
  exact Prod.mk.inj (Except.ok.inj htexts)

end Sql

end FilterQuery
