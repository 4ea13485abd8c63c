import FilterQuery.Proofs.Predicate.Compilation
import FilterQuery.Proofs.Predicate.Globs
import FilterQuery.Proofs.Text.Folding

/-!
# Values in lower case

With the option to ignore case, texts are compared in lower case and globs by the foldings of their
characters, so a query should mean the same when its values are written in lower case. It does where
its constraints are `CaseFree`, and a single constraint only then (`accepts_mapText_lowerCase`):

* equality with a text or with a list of values always is (`sameAs_mapText_lowerCase`);
* a text with a star is if none of its characters drifts (`Glob.accepts_lowerCase_iff`);
* an order constraint is if its operand is in lower case already, because the order of two texts
  does not depend on the option and determines the operand (`eq_of_accepts_compareText`).
-/

namespace FilterQuery

/-- If the value is a text with a star, its lower case folds as it does. -/
def Literal.KeepsFolding : Literal → Prop
  | .text t => Glob.star ∈ t.toList → ∀ c ∈ t.toList, Text.drifts c = false
  | _ => True

namespace Query

/-- The query with every text in its values replaced by its image under `f`. -/
def mapText (f : String → String) : Query → Query
  | or l r => or (l.mapText f) (r.mapText f)
  | and l r => and (l.mapText f) (r.mapText f)
  | present s => present s
  | equality s op v => equality s op (v.mapText f)
  | comparison s op v => comparison s op (v.mapText f)

/-- Writing the values in lower case does not change what the constraints select up to case. -/
def CaseFree : Query → Prop
  | or l r => l.CaseFree ∧ r.CaseFree
  | and l r => l.CaseFree ∧ r.CaseFree
  | present _ => True
  | equality _ _ v => v.KeepsFolding
  | comparison _ _ v => v.mapText Text.lowerCase = v

end Query

/-! ## Globs -/

namespace Glob

/-- Up to case, what fits a pattern is a matter of the foldings of its characters: a text that fits
a pattern fits each pattern with the same foldings. Stars stay stars, because no other character
folds to one. -/
theorem Fits.of_map_foldChar_eq {isRun : Char → Bool} {pattern pattern' text : List Char}
    (h : Fits (Text.sameChar true) isRun pattern text)
    (hfold : pattern'.map Text.foldChar = pattern.map Text.foldChar) :
    Fits (Text.sameChar true) isRun pattern' text := by
  have hstar (c : Char) : Text.foldChar c = star ↔ c = star := Text.foldChar_eq_iff (by decide)
  -- along the derivation for the first pattern; the second one begins with the same kind of
  -- character at each step
  induction h generalizing pattern' with
  | done =>
    rw [List.map_nil, List.map_eq_nil_iff] at hfold
    rw [hfold]
    exact .done
  | run hrun _ ih =>
    obtain ⟨x, rest, rfl, hx, hrest⟩ := List.map_eq_cons_iff.1 hfold
    rw [(hstar star).2 rfl, hstar] at hx
    rw [hx]
    exact .run hrun (ih hrest)
  | @char x c pattern text hx hc _ ih =>
    obtain ⟨y, rest, rfl, hy, hrest⟩ := List.map_eq_cons_iff.1 hfold
    refine .char ?_ ?_ (ih hrest)
    · rwa [Ne, ← hstar, hy, hstar]
    · show (Text.foldChar y == Text.foldChar c) = true
      rw [hy]
      exact hc

/-- Up to case, each character of a pattern other than a star has a partner in a text that fits: a
character with the same folding. -/
theorem Fits.exists_foldChar_eq {isRun : Char → Bool} {pattern text : List Char}
    (h : Fits (Text.sameChar true) isRun pattern text) {x : Char} (hx : x ∈ pattern)
    (hstar : x ≠ star) : ∃ c ∈ text, Text.foldChar c = Text.foldChar x := by
  induction h with
  | done => cases hx
  | run _ _ ih =>
    obtain ⟨c, hc, hfold⟩ := ih ((List.mem_cons.1 hx).resolve_left hstar)
    exact ⟨c, List.mem_append_right _ hc, hfold⟩
  | char _ hc _ ih =>
    rcases List.mem_cons.1 hx with rfl | hx
    · exact ⟨_, List.mem_cons_self, (eq_of_beq hc).symm⟩
    · obtain ⟨c, hc, hfold⟩ := ih hx
      exact ⟨c, List.mem_cons_of_mem _ hc, hfold⟩

/-- A pattern fits itself, read as a text: a star is a run of one character, and every other
character is the same as itself. -/
theorem fits_self (ignoreCase : Bool) (pattern : List Char) :
    Fits (Text.sameChar ignoreCase) isRunChar pattern pattern := by
  have hsame (c : Char) : Text.sameChar ignoreCase c c = true := by
    cases ignoreCase <;> exact beq_self_eq_true _
  induction pattern with
  | nil => exact .done
  | cons x pattern ih =>
    by_cases hx : x = star
    · rw [hx]
      have hrun : ∀ c ∈ [star], isRunChar c = true := List.forall_mem_singleton.2 rfl
      exact .run hrun ih
    · exact .char hx (hsame x) ih

/-- A glob and its lower case accept the same texts exactly if no character of it drifts. -/
theorem accepts_lowerCase_iff (t : String) :
    (∀ text, accepts ⟨(Text.lowerCase t).toList, true⟩ text = accepts ⟨t.toList, true⟩ text) ↔
      ∀ c ∈ t.toList, Text.drifts c = false := by
  rw [Text.lowerCase, String.toList_ofList]
  constructor
  · intro h x hx
    -- the lower case as a text fits itself; a drifting character has no partner in it
    have hself := fits_self true (Text.lowerAfter [] t.toList)
    have hfits : Fits (Text.sameChar true) isRunChar t.toList (Text.lowerAfter [] t.toList) := by
      have hlower := (accepts_iff_fits ⟨Text.lowerAfter [] t.toList, true⟩
        (String.ofList (Text.lowerAfter [] t.toList))).2 (by rwa [String.toList_ofList])
      rw [h, accepts_iff_fits, String.toList_ofList] at hlower
      exact hlower
    refine eq_false_of_ne_true fun hdrifts => ?_
    have hstar : x ≠ star := by
      rintro rfl
      cases hdrifts
    obtain ⟨c, hc, hfold⟩ := hfits.exists_foldChar_eq hx hstar
    rw [Text.eq_of_foldChar_eq hdrifts hfold] at hc
    exact Text.not_isSettled_of_drifts hdrifts (Text.isSettled_of_mem_lowerAfter hc)
  · intro h text
    -- nothing drifts, so both patterns have the same foldings
    have hfold := Text.map_foldChar_lowerAfter h []
    rw [Bool.eq_iff_iff, accepts_iff_fits, accepts_iff_fits]
    exact ⟨fun hfits => hfits.of_map_foldChar_eq hfold.symm,
      fun hfits => hfits.of_map_foldChar_eq hfold⟩

end Glob

namespace Predicate

/-! ## Single constraints -/

/-- A document in which the selector points at one value. -/
def holding (s : Selector) (value : Json) : Json :=
  match s.association with
  | none => .object [(s.field, value)]
  | some association => .object [(association, .object [(s.field, value)])]

/-- The value that `holding` puts into the document is the only one that the selector points at. So
what a predicate makes of a single value can be seen at such a document. -/
theorem candidates_holding (s : Selector) (value : Json) :
    candidates s (holding s value) = [value] := by
  unfold candidates holding
  cases s.association with
  | none => simp [Json.field?]
  | some association => simp [parents, Json.field?]

/-- Equality up to case does not see whether the value is written in lower case: it lowers both
texts, and to lower a text twice is to lower it once. -/
theorem sameAs_mapText_lowerCase (c : Json) (v : Literal) :
    sameAs true c (v.mapText Text.lowerCase) = sameAs true c v := by
  cases v with
  | bool b => rfl
  | number n => rfl
  | list items =>
    rw [Literal.mapText]
    cases c <;> rfl
  | text t =>
    rw [Literal.mapText]
    cases c with
    | string a => simp only [sameAs, if_pos, Text.lowerCase_lowerCase]
    | _ => simp only [sameAs]

/-- A predicate that asks for one of several values, or for none of them, accepts the same documents
with these values in lower case. -/
theorem equals_mapText_lowerCase (s : Selector) (values : List Literal) (negate : Bool)
    (doc : Json) :
    (equals s (values.map (Literal.mapText Text.lowerCase)) negate true).accepts doc =
      (equals s values negate true).accepts doc := by
  have hany (c : Json) :
      (values.map (Literal.mapText Text.lowerCase)).any (sameAs true c) =
        values.any (sameAs true c) := by
    rw [List.any_map]
    exact congrArg values.any (funext fun v => sameAs_mapText_lowerCase c v)
  simp only [accepts, hany]

/-- A predicate with a glob accepts the same documents as the one with the glob in lower case
exactly if no character of the glob drifts. That this is necessary is seen at the documents that
hold a single text. -/
theorem like_lowerCase_iff (s : Selector) (t : String) (negate : Bool) :
    (∀ doc, (like s ⟨(Text.lowerCase t).toList, true⟩ negate).accepts doc =
        (like s ⟨t.toList, true⟩ negate).accepts doc) ↔
      ∀ c ∈ t.toList, Text.drifts c = false := by
  rw [← Glob.accepts_lowerCase_iff]
  constructor
  · intro h text
    have hdoc := h (holding s (.string text))
    simp only [accepts, candidates_holding, List.any_cons, List.any_nil, Bool.or_false, isLike,
      Bool.bne_left_inj] at hdoc
    exact hdoc
  · intro h doc
    have hlike : isLike ⟨(Text.lowerCase t).toList, true⟩ = isLike ⟨t.toList, true⟩ := by
      funext c
      cases c with
      | string text => exact h text
      | _ => simp only [isLike]
    rw [accepts, accepts, hlike]

/-- Up to case, the predicate of an equality constraint accepts the same documents with its value in
lower case exactly if the value keeps its folding. Only a text with a star can fail to, since lower
case neither adds nor removes a star. -/
theorem ofEquality_mapText_lowerCase_iff (s : Selector) (op : Equality) (v : Literal) :
    (∀ doc, (ofEquality true s op (v.mapText Text.lowerCase)).accepts doc =
        (ofEquality true s op v).accepts doc) ↔ v.KeepsFolding := by
  cases v with
  | bool b => exact iff_of_true (fun _ => rfl) trivial
  | number n => exact iff_of_true (fun _ => rfl) trivial
  | list items =>
    refine iff_of_true (fun doc => ?_) trivial
    rw [Literal.mapText, Literal.mapTextItems_eq_map]
    exact equals_mapText_lowerCase s items _ doc
  | text t =>
    have hmem := Text.mem_lowerCase_iff (d := Glob.star) (by decide) t
    rw [Literal.mapText]
    -- a star makes the text a glob, which goes by foldings; without one it is compared as a whole
    by_cases hstar : Glob.star ∈ t.toList
    · rw [ofEquality_of_mem_star hstar, ofEquality_of_mem_star (hmem.2 hstar), like_lowerCase_iff]
      exact ⟨fun h _ => h, fun h => h hstar⟩
    · rw [ofEquality_of_notMem_star hstar, ofEquality_of_notMem_star (mt hmem.1 hstar)]
      exact iff_of_true (equals_mapText_lowerCase s [.text t] _) fun h => absurd h hstar

/-! ## Order constraints -/

theorem compareText_self (a : String) : compareText a a = .eq := by
  rw [compareText, if_neg (String.lt_irrefl a), if_pos rfl]

/-- Of two different texts one is less and the other greater, whichever of them is compared with the
other. -/
theorem compareText_of_ne {a b : String} (h : a ≠ b) :
    compareText a b = .lt ∧ compareText b a = .gt ∨
      compareText a b = .gt ∧ compareText b a = .lt := by
  unfold compareText
  by_cases hlt : a < b
  · rw [if_pos hlt, if_neg (String.lt_asymm hlt), if_neg h.symm]
    exact .inl ⟨rfl, rfl⟩
  · have hgt : b < a := by
      refine Decidable.byContradiction fun hge => h ?_
      exact String.le_antisymm (String.not_lt.1 hge) (String.not_lt.1 hlt)
    rw [if_neg hlt, if_neg h, if_pos hgt]
    exact .inr ⟨rfl, rfl⟩

/-- The texts that a bound accepts determine its operand. Every bound tells less from greater, or
equal from one of them, so comparing both operands with each other shows a difference. -/
theorem eq_of_accepts_compareText {bound : Bound} {a b : String}
    (h : ∀ text, bound.accepts (compareText text a) = bound.accepts (compareText text b)) :
    a = b := by
  have hdistinct : ¬ (bound.accepts .lt = bound.accepts .eq ∧
      bound.accepts .eq = bound.accepts .gt) := by
    cases bound <;> decide
  refine Decidable.byContradiction fun hne => hdistinct ?_
  -- each of the two operands is compared with both
  have ha := h a
  have hb := h b
  rw [compareText_self] at ha hb
  rcases compareText_of_ne hne with ⟨hab, hba⟩ | ⟨hab, hba⟩
  · rw [hab] at ha
    rw [hba] at hb
    exact ⟨ha.symm, hb.symm⟩
  · rw [hab] at ha
    rw [hba] at hb
    exact ⟨hb, ha⟩

/-- Two order constraints with one bound and a text each accept the same documents exactly if they
have the same text. -/
theorem compare_text_iff (s : Selector) (bound : Bound) (a b : String) :
    (∀ doc, (compare s bound (.text a)).accepts doc = (compare s bound (.text b)).accepts doc) ↔
      a = b := by
  constructor
  · intro h
    apply eq_of_accepts_compareText
    -- documents with one text are enough to tell the operands apart
    intro text
    have hdoc := h (holding s (.string text))
    simp only [accepts, candidates_holding, List.any_cons, List.any_nil, Bool.or_false,
      compareWith?, Option.any_some] at hdoc
    exact hdoc
  · rintro rfl doc
    rfl

/-- An order constraint that has a predicate has one as well with its operand in lower case, and the
two accept the same documents exactly if the operand is in lower case already. -/
theorem ofComparison_mapText_lowerCase {s : Selector} {op : Comparison} {v : Literal}
    {p : Predicate} (h : ofComparison s op v = .ok p) :
    ∃ p', ofComparison s op (v.mapText Text.lowerCase) = .ok p' ∧
      ((∀ doc, p'.accepts doc = p.accepts doc) ↔ v.mapText Text.lowerCase = v) := by
  cases v with
  | bool b => exact ⟨p, h, iff_of_true (fun _ => rfl) rfl⟩
  | number n => exact ⟨p, h, iff_of_true (fun _ => rfl) rfl⟩
  | list items => cases op <;> cases h
  | text t =>
    cases op with
    | isNull => cases h
    | custom name => cases h
    | bound b =>
      cases h
      refine ⟨_, rfl, ?_⟩
      rw [Literal.mapText, Literal.text.injEq]
      exact compare_text_iff s b (Text.lowerCase t) t

/-! ## Queries -/

/-- What `accepts_mapText_lowerCase` says, along the rules by which a query compiles. The converse
needs a single constraint: in a disjunction one side can make up for what the other loses. -/
theorem Compiles.mapText_lowerCase {options : Options} (hi : options.ignoreCase = true) {q : Query}
    {p : Predicate} (h : Compiles options q p) :
    ∃ p', Compiles options (q.mapText Text.lowerCase) p' ∧
      (q.CaseFree → ∀ doc, p'.accepts doc = p.accepts doc) ∧
      (q.selector? ≠ none → (∀ doc, p'.accepts doc = p.accepts doc) → q.CaseFree) := by
  induction h with
  | or _ _ ihl ihr =>
    obtain ⟨left', hl', hleft, -⟩ := ihl
    obtain ⟨right', hr', hright, -⟩ := ihr
    refine ⟨.any left' right', .or hl' hr', ?_, fun hs => absurd rfl hs⟩
    intro hfree doc
    rw [accepts, accepts, hleft hfree.1, hright hfree.2]
  | and _ _ ihl ihr =>
    obtain ⟨left', hl', hleft, -⟩ := ihl
    obtain ⟨right', hr', hright, -⟩ := ihr
    refine ⟨.all left' right', .and hl' hr', ?_, fun hs => absurd rfl hs⟩
    intro hfree doc
    rw [accepts, accepts, hleft hfree.1, hright hfree.2]
  | present hs => exact ⟨_, .present hs, fun _ _ => rfl, fun _ _ => trivial⟩
  | @equality s s' op v hs =>
    have hiff := ofEquality_mapText_lowerCase_iff s' op v
    rw [← hi] at hiff
    exact ⟨_, .equality hs, hiff.2, fun _ => hiff.1⟩
  | @comparison s s' op v p hs hv =>
    obtain ⟨p', hv', hiff⟩ := ofComparison_mapText_lowerCase hv
    exact ⟨p', .comparison hs hv', hiff.2, fun _ => hiff.1⟩

/-- Up to case, a query that has a predicate has one as well with its values in lower case. Where
the constraints are free of case the two accept the same documents, and the two of a single
constraint accept the same documents only then. -/
theorem accepts_mapText_lowerCase {options : Options} (hi : options.ignoreCase = true) {q : Query}
    {p : Predicate} (h : ofQuery q options = .ok p) :
    ∃ p', ofQuery (q.mapText Text.lowerCase) options = .ok p' ∧
      (q.CaseFree → ∀ doc, p'.accepts doc = p.accepts doc) ∧
      (q.selector? ≠ none → (∀ doc, p'.accepts doc = p.accepts doc) → q.CaseFree) := by
  obtain ⟨p', hp', hagree⟩ := (ofQuery_eq_ok_iff.1 h).mapText_lowerCase hi
  exact ⟨p', ofQuery_eq_ok_iff.2 hp', hagree⟩

/-- A disjunction of a glob in upper case and an order constraint in lower case, which together are
free of case. -/
theorem accepts_mapText_lowerCase_star_and_bound :
    ∃ p', ofQuery (.or (.equality ⟨none, "name"⟩ .equal (.text "j*"))
          (.comparison ⟨none, "name"⟩ (.bound .greater) (.text "k")))
        { ignoreCase := true } = .ok p' ∧
      ∀ doc, p'.accepts doc =
        (any (.like ⟨none, "name"⟩ ⟨"J*".toList, true⟩ false)
          (.compare ⟨none, "name"⟩ .greater (.text "k"))).accepts doc := by
  have hstar : Text.lowerCase "J*" = "j*" := by decide +kernel
  have hoperand : Text.lowerCase "k" = "k" := by decide +kernel
  have hquery : ofQuery (.or (.equality ⟨none, "name"⟩ .equal (.text "J*"))
      (.comparison ⟨none, "name"⟩ (.bound .greater) (.text "k"))) { ignoreCase := true } = .ok _ :=
    rfl
  obtain ⟨p', hp', hagree, -⟩ := accepts_mapText_lowerCase rfl hquery
  simp only [Query.mapText, Literal.mapText, hstar, hoperand] at hp'
  have hfolds : ("J*".toList.all fun c => !Text.drifts c) = true := by decide +kernel
  refine ⟨p', hp', hagree ⟨fun _ c hc => ?_, congrArg Literal.text hoperand⟩⟩
  simpa using List.all_eq_true.1 hfolds c hc

/-- The order of two texts is that of their code points, also up to case. Since `"A" < "B" < "a"`, a
greater-than constraint accepts `"B"` for the operand `"A"` but not for its lower case. -/
theorem accepts_and_not_accepts_lowerCase :
    ∃ p p', ofQuery (.comparison ⟨none, "name"⟩ (.bound .greater) (.text "A"))
        { ignoreCase := true } = .ok p ∧
      ofQuery (.comparison ⟨none, "name"⟩ (.bound .greater) (.text (Text.lowerCase "A")))
        { ignoreCase := true } = .ok p' ∧
      p.accepts (.object [("name", .string "B")]) = true ∧
      p'.accepts (.object [("name", .string "B")]) = false :=
  ⟨_, _, rfl, rfl, by decide +kernel, by decide +kernel⟩

end Predicate

end FilterQuery
