import FilterQuery.Proofs.Json.UniqueReading
import FilterQuery.Proofs.Query.Limits
import FilterQuery.Proofs.Query.Origin
import FilterQuery.Task

/-!
# Nothing is lost in a printed tree

A tree is printed as a JSON text. The text determines the JSON value (`Json.compact_inj`), and the
value determines the tree: nodes have their type in front, an absent association is null and not a
text, and literals of different kinds are JSON values of different kinds (`Query.toJson_inj`). The
one thing that a text does not show is which infinity, or "not a number", was written as null, so
floating-point numbers have to be finite. In a tree that was read from a text they always are
(`Grammar.Derives.isFinite`). `Task.printed_eq_iff` states both, for trees and for queries.
-/

namespace FilterQuery

/-! ## Values -/

namespace Literal

mutual

/-- Whether all floating-point numbers in the literal are finite. -/
def isFinite : Literal → Bool
  | number n => n.isFinite
  | list items => isFiniteItems items
  -- booleans and texts have no numbers
  | _ => true

/-- Whether all floating-point numbers in the items are finite. -/
def isFiniteItems : List Literal → Bool
  | [] => true
  | item :: items => isFinite item && isFiniteItems items

end

mutual

/-- A literal is finite exactly if the JSON value that it is printed as is. This carries the
condition on the tree over to its JSON value, where the unique reading asks for it. -/
theorem isFinite_toJson : (v : Literal) → v.toJson.isFinite = v.isFinite
  | .bool _ => rfl
  | .number _ => rfl
  | .text _ => rfl
  | .list items => isFiniteItems_toJsonItems items

theorem isFiniteItems_toJsonItems :
    (items : List Literal) → Json.isFiniteItems (toJsonItems items) = isFiniteItems items
  | [] => rfl
  | v :: items => congrArg₂ and (isFinite_toJson v) (isFiniteItems_toJsonItems items)

end

mutual

/-- The JSON value of a literal determines the literal, since the four kinds of literals are four
kinds of values. -/
theorem toJson_inj (v v' : Literal) (h : v.toJson = v'.toJson) : v = v' := by
  match v with
  | .bool b =>
    cases v' with
    | bool b' => rw [Json.bool.inj h]
    | _ => cases h
  | .number n =>
    cases v' with
    | number n' => rw [Json.number.inj h]
    | _ => cases h
  | .text s =>
    cases v' with
    | text s' => rw [Json.string.inj h]
    | _ => cases h
  | .list items =>
    cases v' with
    | list items' => rw [toJsonItems_inj items items' (Json.array.inj h)]
    | _ => cases h

theorem toJsonItems_inj (items items' : List Literal) (h : toJsonItems items = toJsonItems items') :
    items = items' := by
  match items, items' with
  | [], [] => rfl
  | [], _ :: _ => cases h
  | _ :: _, [] => cases h
  | v :: items, v' :: items' =>
    obtain ⟨hv, hitems⟩ := List.cons.inj h
    rw [toJson_inj v v' hv, toJsonItems_inj items items' hitems]

end

end Literal

/-! ## Selectors and operators -/

/-- The JSON value of a selector determines it. A missing association is null, which is no text, so
it differs from every association. -/
theorem Selector.toJson_inj {s s' : Selector} (h : s.toJson = s'.toJson) : s = s' := by
  obtain ⟨association, field⟩ := s
  obtain ⟨association', field'⟩ := s'
  simp only [Selector.toJson, Json.object.injEq, List.cons.injEq, Prod.mk.injEq, true_and, and_true,
    Json.string.injEq] at h
  obtain ⟨hassociation, rfl⟩ := h
  cases association <;> cases association' <;> simp_all

theorem Equality.toJson_inj {op op' : Equality} (h : op.toJson = op'.toJson) : op = op' := by
  cases op <;> cases op' <;> simp_all [Equality.toJson]

theorem Bound.label_inj {b b' : Bound} (h : b.label = b'.label) : b = b' := by
  cases b <;> cases b' <;> simp_all [Bound.label]

theorem Bound.label_ne_isNull (b : Bound) : b.label ≠ "is_null" := by
  cases b <;> decide

/-- A custom operator is an object, so no name makes it one of the others. The five others are
texts, and these differ from each other. -/
theorem Comparison.toJson_inj {op op' : Comparison} (h : op.toJson = op'.toJson) : op = op' := by
  cases op with
  | bound b =>
    cases op' with
    | bound b' => rw [Bound.label_inj (Json.string.inj h)]
    | isNull => exact absurd (Json.string.inj h) b.label_ne_isNull
    | custom => cases h
  | isNull =>
    cases op' with
    | bound b' => exact absurd (Json.string.inj h).symm b'.label_ne_isNull
    | isNull => rfl
    | custom => cases h
  | custom name =>
    cases op' with
    | custom name' =>
      simp only [Comparison.toJson, Json.object.injEq, List.cons.injEq, Prod.mk.injEq, true_and,
        and_true, Json.string.injEq] at h
      rw [h]
    | _ => cases h

/-! ## Trees -/

namespace Query

/-- Whether all floating-point numbers in the query are finite. -/
def isFinite : Query → Bool
  | or l r => l.isFinite && r.isFinite
  | and l r => l.isFinite && r.isFinite
  | present _ => true
  | equality _ _ v => v.isFinite
  | comparison _ _ v => v.isFinite

/-- A query is finite exactly if the JSON value that it is printed as is: apart from its literals
there are only texts, null and objects. -/
theorem isFinite_toJson (q : Query) : q.toJson.isFinite = q.isFinite := by
  -- selectors and operators are printed without numbers
  have hselector (s : Selector) : s.toJson.isFinite = true := by
    obtain ⟨association, field⟩ := s
    cases association <;> rfl
  have hequality (op : Equality) : op.toJson.isFinite = true := by
    cases op <;> rfl
  have hcomparison (op : Comparison) : op.toJson.isFinite = true := by
    cases op <;> rfl
  induction q with
  | or l r ihl ihr | and l r ihl ihr =>
    simp [toJson, Json.isFinite, Json.isFiniteFields, isFinite, ihl, ihr]
  | present s => simp [toJson, Json.isFinite, Json.isFiniteFields, isFinite, hselector]
  | equality s op v | comparison s op v =>
    simp [toJson, Json.isFinite, Json.isFiniteFields, isFinite, hselector, hequality, hcomparison,
      Literal.isFinite_toJson]

/-- The JSON value of a tree determines the tree: the type in front tells which node it is, and the
fields behind it are those of the node. -/
theorem toJson_inj (q q' : Query) (h : q.toJson = q'.toJson) : q = q' := by
  induction q generalizing q' with
  -- nodes of different kinds differ in the text of their type
  | or l r ihl ihr =>
    cases q' with
    | or l' r' =>
      simp only [toJson, Json.object.injEq, List.cons.injEq, Prod.mk.injEq, true_and, and_true] at h
      rw [ihl l' h.1, ihr r' h.2]
    | _ => simp [toJson] at h
  | and l r ihl ihr =>
    cases q' with
    | and l' r' =>
      simp only [toJson, Json.object.injEq, List.cons.injEq, Prod.mk.injEq, true_and, and_true] at h
      rw [ihl l' h.1, ihr r' h.2]
    | _ => simp [toJson] at h
  | present s =>
    cases q' with
    | present s' =>
      simp only [toJson, Json.object.injEq, List.cons.injEq, Prod.mk.injEq, true_and, and_true] at h
      rw [Selector.toJson_inj h]
    | _ => simp [toJson] at h
  | equality s op v =>
    cases q' with
    | equality s' op' v' =>
      simp only [toJson, Json.object.injEq, List.cons.injEq, Prod.mk.injEq, true_and, and_true] at h
      rw [Selector.toJson_inj h.1, Equality.toJson_inj h.2.1, Literal.toJson_inj v v' h.2.2]
    | _ => simp [toJson] at h
  | comparison s op v =>
    cases q' with
    | comparison s' op' v' =>
      simp only [toJson, Json.object.injEq, List.cons.injEq, Prod.mk.injEq, true_and, and_true] at h
      rw [Selector.toJson_inj h.1, Comparison.toJson_inj h.2.1, Literal.toJson_inj v v' h.2.2]
    | _ => simp [toJson] at h

end Query

/-! ## Trees from text -/

/-- A number that can be written in a query is finite, and other single values have no numbers. -/
theorem Literal.isFinite_of_isSingle {v : Literal} (h : v.IsSingle) : v.isFinite = true := by
  cases v with
  | number n =>
    cases n with
    | integer => rfl
    | float => exact h
  | list => exact h.elim
  | bool | text => rfl

theorem Literal.isFiniteItems_of_forall {items : List Literal}
    (h : ∀ v ∈ items, v.isFinite = true) : Literal.isFiniteItems items = true := by
  induction items with
  | nil => rfl
  | cons v items ih =>
    obtain ⟨hv, hitems⟩ := List.forall_mem_cons.1 h
    exact Bool.and_eq_true_iff.2 ⟨hv, ih hitems⟩

theorem Literal.isFinite_of_wellFormed {v : Literal} (h : v.WellFormed) : v.isFinite = true := by
  cases v with
  | list items =>
    exact Literal.isFiniteItems_of_forall fun v hv => Literal.isFinite_of_isSingle (h.2 v hv)
  | bool | number | text => exact Literal.isFinite_of_isSingle h

namespace Grammar

/-- A tree that tokens derive is finite, since a word is read as a number only if the number is. -/
theorem Derives.isFinite {rank : Rank} {ts : List Token} {q : Query} (h : Derives rank ts q) :
    q.isFinite = true := by
  induction h with
  | alternative _ ih | factor _ ih | group _ ih => exact ih
  | or _ _ ihl ihr | and _ _ ihl ihr => exact Bool.and_eq_true_iff.2 ⟨ihl, ihr⟩
  | constraint hq =>
    cases hq with
    | present => rfl
    | equality _ _ hv => exact Literal.isFinite_of_wellFormed hv.wellFormed
    | comparison _ _ hv => exact Literal.isFinite_of_isSingle hv.isSingle

end Grammar

namespace Task

/-- Where a printed tree comes out, the query was read as a finite tree, and this tree was printed.
-/
theorem exists_of_printTree {query : String} {limits : Limits} {text : String}
    (h : printTree query false limits = .ok text) :
    ∃ q, Query.parse query limits = .ok q ∧ q.isFinite = true ∧ text = q.toJson.compact := by
  unfold printTree readQuery at h
  cases hparse : Query.parse query limits with
  | error e =>
    rw [hparse] at h
    cases h
  | ok q =>
    rw [hparse] at h
    cases h
    obtain ⟨body, -, -, hderives, -⟩ := Query.exists_derives_of_parse hparse
    exact ⟨q, rfl, hderives.isFinite, rfl⟩

/-- **A printed tree is the tree.** Two trees without infinities and without "not a number" have the
same compact text only if they are the same tree, and trees that were read from a text have none of
these: queries with the same printed tree are read as the same tree. -/
theorem printed_eq_iff :
    (∀ q q' : Query, q.isFinite = true → q'.isFinite = true →
        (q.toJson.compact = q'.toJson.compact ↔ q = q')) ∧
      ∀ (query query' : String) (limits limits' : Limits) (text : String),
        printTree query false limits = .ok text → printTree query' false limits' = .ok text →
          ∃ q, Query.parse query limits = .ok q ∧ Query.parse query' limits' = .ok q := by
  have hinj (q q' : Query) (hq : q.isFinite = true) (hq' : q'.isFinite = true)
      (h : q.toJson.compact = q'.toJson.compact) : q = q' := by
    -- first from the text to the JSON value, then from the value to the tree
    rw [← Query.isFinite_toJson] at hq hq'
    exact Query.toJson_inj q q' (Json.compact_inj hq hq' h)
  refine ⟨fun q q' hq hq' => ⟨hinj q q' hq hq', fun h => by rw [h]⟩,
    fun query query' limits limits' text h h' => ?_⟩
  obtain ⟨q, hparse, hq, htext⟩ := exists_of_printTree h
  obtain ⟨q', hparse', hq', htext'⟩ := exists_of_printTree h'
  have hsame : q = q' := hinj q q' hq hq' (htext ▸ htext')
  exact ⟨q, hparse, hsame ▸ hparse'⟩

/-- Two handmade trees that look alike when they are printed, and two spellings of one tree. -/
theorem printed_eq_iff_look_alikes :
    let q : Query := .comparison ⟨none, "a"⟩ (.custom "is_null")
      (.list [.number (.integer 1), .text "\",\""])
    let q' : Query := .comparison ⟨some "null", "a"⟩ .isNull
      (.list [.number (.float (.ofNat 1)), .text "", .text ""])
    let text := "\x7b\"type\":\"constraint_with_value\"," ++
      "\"selector\":\x7b\"association\":null,\"field\":\"a\"\x7d,\"op\":\"equal\",\"value\":1.5\x7d"
    q.toJson.compact ≠ q'.toJson.compact ∧
      printTree "a==1.50" false {} = .ok text ∧ printTree "(a == +1.5)" false {} = .ok text ∧
      ∃ r, Query.parse "a==1.50" {} = .ok r ∧ Query.parse "(a == +1.5)" {} = .ok r := by
  intro q q' text
  have hfirst : printTree "a==1.50" false {} = .ok text := by decide +kernel
  have hsecond : printTree "(a == +1.5)" false {} = .ok text := by decide +kernel
  refine ⟨fun h => ?_, hfirst, hsecond, printed_eq_iff.2 _ _ {} {} text hfirst hsecond⟩
  have hsame : q = q' := (printed_eq_iff.1 q q' (by decide) (by decide +kernel)).1 h
  exact absurd hsame (by decide +kernel)

end Task

end FilterQuery
