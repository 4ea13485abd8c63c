import FilterQuery.Query.Parser

/-!
# The grammar of queries

Which sequences of tokens are queries, and the tree that each of them stands for:

```text
alternatives := factors (',' factors)*
factors      := operand (';' operand)*
operand      := '(' alternatives ')' | constraint
constraint   := word | word ('==' | '!=') value | word comparison scalar
value        := scalar | '(' scalar (',' scalar)* ')'
scalar       := word | quoted
```

A comma separates alternatives and the items of a list, and a parenthesis opens a group or a list;
what stands before it decides which. Both kinds of chains nest to the right, so their rules recurse
on the right operand. A group adds no node to the tree.

The grammar knows nothing of limits. What a limit on nesting is about is `groupDepth`, which is
found by one scan over the tokens; `groupDepth_append` and `groupDepth_group` say how it follows
the rules of the grammar.
-/

namespace FilterQuery.Grammar

/-! ## Constraints -/

/-- A single value: a bare word, typed by its form, or a quoted text. -/
inductive Scalar : Token → Literal → Prop where
  | word (text : String) : Scalar (.word text) (.ofWord text)
  | quoted (text : String) : Scalar (.quoted text) (.text text)

/-- No single value begins with a parenthesis, so what follows an equality operator is a single
value or a list and never both. -/
theorem Scalar.ne_openParen {t : Token} {v : Literal} (h : Scalar t v) : t ≠ .openParen := by
  cases h <;> simp

theorem Scalar.ne_endOfInput {t : Token} {v : Literal} (h : Scalar t v) : t ≠ .endOfInput := by
  cases h <;> simp

/-- Single values separated by commas. -/
inductive Items : List Token → List Literal → Prop where
  | last {t : Token} {v : Literal} (hv : Scalar t v) : Items [t] [v]
  | more {t : Token} {v : Literal} {ts : List Token} {vs : List Literal}
      (hv : Scalar t v) (hvs : Items ts vs) : Items (t :: .comma :: ts) (v :: vs)

/-- What an equality operator takes: a single value, or a list in parentheses. -/
inductive Value : List Token → Literal → Prop where
  | scalar {t : Token} {v : Literal} (hv : Scalar t v) : Value [t] v
  | list {ts : List Token} {vs : List Literal} (hvs : Items ts vs) :
      Value (.openParen :: (ts ++ [.closeParen])) (.list vs)

/-- A selector, alone or with an operator and what the operator takes. -/
inductive Constraint : List Token → Query → Prop where
  | present {w : String} {s : Selector} (hs : Selector.ofPath? w = some s) :
      Constraint [.word w] (.present s)
  | equality {w : String} {s : Selector} (op : Equality) {ts : List Token} {v : Literal}
      (hs : Selector.ofPath? w = some s) (hv : Value ts v) :
      Constraint (.word w :: .equality op :: ts) (.equality s op v)
  | comparison {w : String} {s : Selector} (name : String) {t : Token} {v : Literal}
      (hs : Selector.ofPath? w = some s) (hv : Scalar t v) :
      Constraint [.word w, .comparison name, t] (.comparison s (.ofName name) v)

/-! ## Queries -/

/-- The kinds of phrases that constraints are joined to. -/
inductive Rank where
  | alternatives
  | factors
  | operand
deriving DecidableEq

/-- The tokens are a phrase of the given rank, and the query is its tree. -/
inductive Derives : Rank → List Token → Query → Prop where
  | alternative {ts : List Token} {q : Query} (hq : Derives .factors ts q) :
      Derives .alternatives ts q
  | or {ts us : List Token} {l r : Query} (hl : Derives .factors ts l)
      (hr : Derives .alternatives us r) : Derives .alternatives (ts ++ .comma :: us) (.or l r)
  | factor {ts : List Token} {q : Query} (hq : Derives .operand ts q) : Derives .factors ts q
  | and {ts us : List Token} {l r : Query} (hl : Derives .operand ts l)
      (hr : Derives .factors us r) : Derives .factors (ts ++ .semicolon :: us) (.and l r)
  | group {ts : List Token} {q : Query} (hq : Derives .alternatives ts q) :
      Derives .operand (.openParen :: (ts ++ [.closeParen])) q
  | constraint {ts : List Token} {q : Query} (hq : Constraint ts q) : Derives .operand ts q

/-- An operand is a phrase of every rank. A group or a constraint alone is a chain of one factor,
and that one of one alternative. -/
theorem Derives.ofOperand {ts : List Token} {q : Query} (h : Derives .operand ts q) :
    ∀ rank, Derives rank ts q
  | .alternatives => .alternative (.factor h)
  | .factors => .factor h
  | .operand => h

theorem Constraint.length_selectors_le {ts : List Token} {q : Query} (h : Constraint ts q) :
    q.selectors.length ≤ ts.length := by
  cases h <;> simp [Query.selectors]

/-- A query has no more selectors than tokens, so a limit as large as the text on their number is no
limit. -/
theorem Derives.length_selectors_le {rank : Rank} {ts : List Token} {q : Query}
    (h : Derives rank ts q) : q.selectors.length ≤ ts.length := by
  induction h with
  | alternative _ ih => exact ih
  | factor _ ih => exact ih
  | or _ _ ihl ihr | and _ _ ihl ihr =>
    simp only [Query.selectors, List.length_append, List.length_cons]
    omega
  | group _ ih =>
    simp only [List.length_cons, List.length_append]
    omega
  | constraint hq => exact hq.length_selectors_le

/-! ## Nesting of groups -/

/-- The greatest number of groups open at one time in the rest of a query, where `groups` of them
are open already. A parenthesis after an equality operator opens a list and does not count, nor does
the one that closes it. -/
def deepestFrom (groups : Nat) (inList : Bool) : List Token → Nat
  | [] => groups
  | .equality _ :: .openParen :: ts => deepestFrom groups true ts
  | .openParen :: ts => deepestFrom (groups + 1) inList ts
  | .closeParen :: ts =>
    if inList then deepestFrom groups false ts
    else max groups (deepestFrom (groups - 1) false ts)
  | _ :: ts => deepestFrom groups inList ts

/-- The greatest number of groups that are open at one time. -/
def groupDepth (ts : List Token) : Nat := deepestFrom 0 false ts

theorem le_deepestFrom (groups : Nat) (inList : Bool) (ts : List Token) :
    groups ≤ deepestFrom groups inList ts := by
  fun_induction deepestFrom groups inList ts with
  | case1 => exact Nat.le_refl _
  | case2 _ _ _ _ ih => exact ih
  | case3 _ _ _ ih => omega
  | case4 _ _ ih => exact ih
  | case5 _ _ _ _ ih => omega
  | case6 _ _ _ _ _ _ _ ih => exact ih

theorem deepestFrom_le (groups : Nat) (inList : Bool) (ts : List Token) :
    deepestFrom groups inList ts ≤ groups + ts.length := by
  fun_induction deepestFrom groups inList ts with
  | case1 => exact Nat.le_refl _
  | case2 _ _ _ _ ih => simp only [List.length_cons]; omega
  | case3 _ _ _ ih => simp only [List.length_cons]; omega
  | case4 _ _ ih => simp only [List.length_cons]; omega
  | case5 _ _ _ _ ih => simp only [List.length_cons]; omega
  | case6 _ _ _ _ _ _ _ ih => simp only [List.length_cons]; omega

/-- The values of a list open no group, and the parenthesis behind them closes the list. Inside the
list no parenthesis can open anything, since lists do not nest. -/
theorem deepestFrom_items {ts : List Token} {vs : List Literal} (h : Items ts vs) (groups : Nat)
    (rest : List Token) :
    deepestFrom groups true (ts ++ .closeParen :: rest) = deepestFrom groups false rest := by
  induction h with
  | last hv => cases hv <;> simp [deepestFrom]
  | more hv _ ih => cases hv <;> simpa [deepestFrom] using ih

/-- A constraint opens no group, whether or not it has a list. -/
theorem deepestFrom_constraint {ts : List Token} {q : Query} (h : Constraint ts q) (groups : Nat)
    (rest : List Token) :
    deepestFrom groups false (ts ++ rest) = deepestFrom groups false rest := by
  cases h with
  | present _ => simp [deepestFrom]
  | equality op _ hv =>
    cases hv with
    | scalar hv => cases hv <;> simp [deepestFrom]
    -- the operator before the parenthesis makes the scan pass it as the start of a list
    | list hvs => simpa [deepestFrom] using deepestFrom_items hvs groups rest
  | comparison name _ hv => cases hv <;> simp [deepestFrom]

/-- A phrase raises the count by an amount of its own, wherever it stands, and leaves as many groups
open as there were before it. -/
theorem exists_deepestFrom_append {rank : Rank} {ts : List Token} {q : Query}
    (h : Derives rank ts q) :
    ∃ k, ∀ groups rest, deepestFrom groups false (ts ++ rest) =
      max (groups + k) (deepestFrom groups false rest) := by
  induction h with
  -- the amount is found along the derivation: the greater of both in a chain, one more in a group
  | alternative _ ih => exact ih
  | factor _ ih => exact ih
  | or _ _ ihl ihr | and _ _ ihl ihr =>
    obtain ⟨k, hk⟩ := ihl
    obtain ⟨k', hk'⟩ := ihr
    refine ⟨max k k', fun groups rest => ?_⟩
    simp only [List.append_assoc, List.cons_append, hk, deepestFrom, hk']
    omega
  | group _ ih =>
    -- the inside is scanned with one group more, and the parenthesis at its end takes it away again
    obtain ⟨k, hk⟩ := ih
    refine ⟨k + 1, fun groups rest => ?_⟩
    simp only [List.append_assoc, List.cons_append, List.nil_append, deepestFrom, hk,
      Bool.false_eq_true, if_false, Nat.add_sub_cancel]
    omega
  | constraint hq =>
    refine ⟨0, fun groups rest => ?_⟩
    have := le_deepestFrom groups false rest
    rw [deepestFrom_constraint hq]
    omega

/-- The amount by which a phrase raises the count is its depth. -/
theorem deepestFrom_append {rank : Rank} {ts : List Token} {q : Query} (h : Derives rank ts q)
    (groups : Nat) (rest : List Token) :
    deepestFrom groups false (ts ++ rest) =
      max (groups + groupDepth ts) (deepestFrom groups false rest) := by
  obtain ⟨k, hk⟩ := exists_deepestFrom_append h
  -- with nothing around the phrase, the amount is all there is
  have hdepth : groupDepth ts = k := by
    have := hk 0 []
    simp only [List.append_nil, deepestFrom] at this
    rw [groupDepth, this]
    omega
  rw [hk, hdepth]

/-- The depth of a chain is the greater one of the depths on both sides of the separator. So a chain
does not add to the nesting, however long it is. -/
theorem groupDepth_append {rank : Rank} {ts : List Token} {q : Query} (h : Derives rank ts q)
    {separator : Token} (hs : separator = .comma ∨ separator = .semicolon) (us : List Token) :
    groupDepth (ts ++ separator :: us) = max (groupDepth ts) (groupDepth us) := by
  have := deepestFrom_append h 0 (separator :: us)
  rw [groupDepth, this]
  rcases hs with rfl | rfl <;> simp [deepestFrom, groupDepth]

/-- A group is one deeper than what is inside it. This is the only rule of the grammar that adds to
the nesting. -/
theorem groupDepth_group {ts : List Token} {q : Query} (h : Derives .alternatives ts q) :
    groupDepth (.openParen :: (ts ++ [.closeParen])) = groupDepth ts + 1 := by
  -- behind the first parenthesis one group is open, and the last one closes it
  have := deepestFrom_append h 1 [.closeParen]
  simp only [deepestFrom, Bool.false_eq_true, if_false] at this
  rw [groupDepth, deepestFrom, this]
  omega

/-- The depth is bounded by the number of tokens, so a limit as large as the text on it is no limit.
-/
theorem groupDepth_le (ts : List Token) : groupDepth ts ≤ ts.length := by
  have := deepestFrom_le 0 false ts
  rwa [Nat.zero_add] at this

theorem groupDepth_constraint {ts : List Token} {q : Query} (h : Constraint ts q) :
    groupDepth ts = 0 := by
  have := deepestFrom_constraint h 0 []
  rwa [List.append_nil] at this

end FilterQuery.Grammar
