import FilterQuery.Proofs.Token.Spelling
import FilterQuery.Query

/-!
# Queries that can be written

Not every tree is the tree of a text: a selector may hold a comma, a comparison a list, an operator
a blank. `Query.WellFormed` collects what a tree must satisfy, node by node. For the selectors this
comes down to two facts: the path of a well-formed selector is a bare word (`WellFormed.isWord`),
and it is read back as the selector (`ofPath?_path`).
-/

namespace FilterQuery

/-! ## Selectors -/

namespace Selector

/-- A part of a path as it can be written: not empty, of bare characters, without a dot. -/
structure IsSegment (segment : String) : Prop where
  ne_empty : segment ≠ ""
  bare : ∀ c ∈ segment.toList, Token.isBare c = true
  ne_dot : ∀ c ∈ segment.toList, c ≠ '.'

/-- Both parts can be written, and the path does not look like a quoted text. -/
structure WellFormed (s : Selector) : Prop where
  field : IsSegment s.field
  association : ∀ a ∈ s.association, IsSegment a
  head_ne_quote : s.path.toList.head? ≠ some '\''

instance (segment : String) : Decidable (IsSegment segment) :=
  -- by running through the characters of the segment, and not through all there are
  decidable_of_iff
    (segment ≠ "" ∧ segment.toList.all Token.isBare = true ∧ '.' ∉ segment.toList)
    ⟨fun ⟨h1, h2, h3⟩ => ⟨h1, List.all_eq_true.1 h2, fun _ hc hdot => h3 (hdot ▸ hc)⟩,
      fun h => ⟨h.ne_empty, List.all_eq_true.2 h.bare, fun hdot => h.ne_dot _ hdot rfl⟩⟩

instance (s : Selector) : Decidable s.WellFormed :=
  decidable_of_iff
    (IsSegment s.field ∧ (∀ a ∈ s.association, IsSegment a) ∧ s.path.toList.head? ≠ some '\'')
    ⟨fun ⟨h1, h2, h3⟩ => ⟨h1, h2, h3⟩, fun h => ⟨h.field, h.association, h.head_ne_quote⟩⟩

theorem IsSegment.toList_ne_nil {segment : String} (h : IsSegment segment) :
    segment.toList ≠ [] := by
  intro hnil
  exact h.ne_empty (String.toList_eq_nil_iff.1 hnil)

/-- A path is read back as the selector it was made from, if its parts are not empty and hold no
dot. -/
theorem ofPath?_path {s : Selector} (hfield : s.field.toList ≠ [])
    (hdot : ∀ c ∈ s.field.toList, c ≠ '.')
    (hassociation : ∀ a ∈ s.association, a.toList ≠ [] ∧ ∀ c ∈ a.toList, c ≠ '.') :
    ofPath? s.path = some s := by
  obtain ⟨association, field⟩ := s
  have hfree {cs : List Char} (h : ∀ c ∈ cs, c ≠ '.') : ∀ c ∈ cs, (c != '.') = true := by
    intro c hc
    simpa using h c hc
  cases association with
  | none =>
    -- a path without a dot is a field and nothing else
    have htake : field.toList.takeWhile (· != '.') = field.toList :=
      List.takeWhile_eq_self_iff.2 (hfree hdot)
    have hdrop : field.toList.dropWhile (· != '.') = [] :=
      List.dropWhile_eq_nil_iff.2 (hfree hdot)
    simp only [ofPath?, path, htake, hdrop, List.isEmpty_iff, hfield, if_false,
      String.ofList_toList]
  | some a =>
    obtain ⟨ha, hadot⟩ := hassociation a rfl
    have hpath : (a ++ "." ++ field).toList = a.toList ++ '.' :: field.toList := by simp
    have htake : (a.toList ++ '.' :: field.toList).takeWhile (· != '.') = a.toList := by
      rw [List.takeWhile_append_of_pos (hfree hadot), List.takeWhile_cons_of_neg (by simp),
        List.append_nil]
    have hdrop : (a.toList ++ '.' :: field.toList).dropWhile (· != '.') = '.' :: field.toList := by
      rw [List.dropWhile_append_of_pos (hfree hadot), List.dropWhile_cons_of_neg (by simp)]
    -- the path has a second dot only if the field has one
    have hnone : '.' ∉ field.toList := fun h => hdot _ h rfl
    simp only [ofPath?, path, hpath, htake, hdrop]
    simp [ha, hfield, hnone]

namespace WellFormed

theorem ofPath? {s : Selector} (h : s.WellFormed) : Selector.ofPath? s.path = some s :=
  ofPath?_path h.field.toList_ne_nil h.field.ne_dot fun a ha =>
    ⟨(h.association a ha).toList_ne_nil, (h.association a ha).ne_dot⟩

/-- The path of a well-formed selector is a bare word. -/
theorem isWord {s : Selector} (h : s.WellFormed) : Token.IsWord s.path.toList := by
  obtain ⟨association, field⟩ := s
  cases association with
  | none => exact ⟨h.field.toList_ne_nil, h.field.bare, h.head_ne_quote⟩
  | some a =>
    have hpath : path ⟨some a, field⟩ = a ++ "." ++ field := rfl
    refine ⟨by simp [hpath], fun c hc => ?_, h.head_ne_quote⟩
    simp only [hpath, String.toList_append, List.mem_append] at hc
    rcases hc with (hc | hc) | hc
    · exact (h.association a rfl).bare c hc
    · have : c = '.' := by simpa using hc
      rw [this]
      decide
    · exact h.field.bare c hc

end WellFormed

end Selector

/-! ## Operators and values -/

/-- The operator has a name that can be written and that no other operator has. -/
def Comparison.WellFormed : Comparison → Prop
  | .custom name => name ≠ "" ∧ (∀ c ∈ name.toList, Token.isNameChar c = true) ∧
      name ∉ ["gt", "lt", "ge", "le", "isnull"]
  | _ => True

instance : DecidablePred Comparison.WellFormed
  | .custom name =>
    decidable_of_iff (name ≠ "" ∧ name.toList.all Token.isNameChar = true ∧
        name ∉ ["gt", "lt", "ge", "le", "isnull"])
      (and_congr_right fun _ => and_congr_left fun _ => List.all_eq_true)
  | .bound _ => .isTrue trivial
  | .isNull => .isTrue trivial

/-- The name of a well-formed operator leads back to it. Only a custom operator could go wrong, if
it had the name of one of the five others. -/
theorem Comparison.WellFormed.ofName_name {op : Comparison} (h : op.WellFormed) :
    ofName op.name = op := by
  cases op with
  | bound b => cases b <;> rfl
  | isNull => rfl
  | custom name =>
    obtain ⟨-, -, hname⟩ := h
    simp only [List.mem_cons, List.not_mem_nil, or_false, not_or] at hname
    obtain ⟨h1, h2, h3, h4, h5⟩ := hname
    simp [ofName, Comparison.name, h1, h2, h3, h4, h5]

/-- The name of a well-formed operator can be written between two equals signs. -/
theorem Comparison.WellFormed.isNameChar {op : Comparison} (h : op.WellFormed) :
    op.name.toList ≠ [] ∧ ∀ c ∈ op.name.toList, Token.isNameChar c = true := by
  cases op with
  | bound b => cases b <;> exact ⟨by decide, List.all_eq_true.1 (by decide)⟩
  | isNull => exact ⟨by decide, List.all_eq_true.1 (by decide)⟩
  | custom name =>
    obtain ⟨hne, hname, -⟩ := h
    exact ⟨fun hnil => hne (String.toList_eq_nil_iff.1 hnil), hname⟩

namespace Literal

/-- A single value: a text, a truth value, an integer of 64 bits or a finite number. -/
def IsSingle : Literal → Prop
  | .bool _ => True
  | .number (.integer n) => leastInteger ≤ n ∧ n ≤ greatestInteger
  | .number (.float x) => x.isFinite = true
  | .text _ => True
  | .list _ => False

/-- A single value, or a list of at least one. -/
def WellFormed : Literal → Prop
  | .list items => items ≠ [] ∧ ∀ v ∈ items, v.IsSingle
  | v => v.IsSingle

instance : DecidablePred IsSingle
  | .bool _ => .isTrue trivial
  | .number (.integer n) =>
    inferInstanceAs (Decidable (leastInteger ≤ n ∧ n ≤ greatestInteger))
  | .number (.float x) => inferInstanceAs (Decidable (x.isFinite = true))
  | .text _ => .isTrue trivial
  | .list _ => .isFalse id

instance : DecidablePred WellFormed
  | .list items => inferInstanceAs (Decidable (items ≠ [] ∧ ∀ v ∈ items, v.IsSingle))
  | .bool b => inferInstanceAs (Decidable (IsSingle (.bool b)))
  | .number n => inferInstanceAs (Decidable (IsSingle (.number n)))
  | .text s => inferInstanceAs (Decidable (IsSingle (.text s)))

end Literal

/-! ## Trees -/

/-- Every node can be written. Lists stand only under an equality operator. -/
def Query.WellFormed : Query → Prop
  | .or l r => l.WellFormed ∧ r.WellFormed
  | .and l r => l.WellFormed ∧ r.WellFormed
  | .present s => s.WellFormed
  | .equality s _ v => s.WellFormed ∧ v.WellFormed
  | .comparison s op v => s.WellFormed ∧ op.WellFormed ∧ v.IsSingle

/-- Whether a tree can be written is decided node by node. -/
def Query.decWellFormed : (q : Query) → Decidable q.WellFormed
  | .or l r => @instDecidableAnd _ _ l.decWellFormed r.decWellFormed
  | .and l r => @instDecidableAnd _ _ l.decWellFormed r.decWellFormed
  | .present s => inferInstanceAs (Decidable s.WellFormed)
  | .equality s _ v => inferInstanceAs (Decidable (s.WellFormed ∧ v.WellFormed))
  | .comparison s op v =>
    inferInstanceAs (Decidable (s.WellFormed ∧ op.WellFormed ∧ v.IsSingle))

instance : DecidablePred Query.WellFormed := Query.decWellFormed

end FilterQuery
