import FilterQuery.Proofs.Backend.Refusals
import FilterQuery.Proofs.Predicate.Compilation
import FilterQuery.Proofs.Sql.Like

/-!
# Stars in predicates and in statements

An equality constraint with a star becomes a glob in a predicate and a LIKE pattern in a statement.
Both lay a text out along the stars, but the star of a glob does not run over a line feed and the
`%` of a pattern does. A text has no line feed in its runs exactly if it has as many line feeds as
the text with stars has (`fits_isRunChar_iff`). So this count is all that tells the two apart:
`accepts_iff_like_and_count`, and `like_and_not_accepts_line_feed` for a text that they treat
differently.
-/

namespace FilterQuery

namespace Glob

/-- A layout stays one if stars may run over more characters. So what a glob accepts, where stars
stop at line feeds, satisfies the pattern, where they do not. -/
theorem Fits.mono {same : Char → Char → Bool} {isRun isRun' : Char → Bool}
    (hmono : ∀ c, isRun c = true → isRun' c = true) {pattern text : List Char}
    (h : Fits same isRun pattern text) : Fits same isRun' pattern text := by
  induction h with
  | done => exact .done
  | run hrun _ ih => exact .run (fun c hc => hmono c (hrun c hc)) ih
  | char hx hc _ ih => exact .char hx hc ih

/-- A text that fits a pattern has the line feeds of the pattern, and those of its runs. If the runs
have none, the two numbers are the same, and this is how the runs of a pattern are told from those
of a glob. -/
theorem Fits.count_le {isRun : Char → Bool} {pattern text : List Char}
    (h : Fits (Text.sameChar false) isRun pattern text) :
    pattern.count '\n' ≤ text.count '\n' := by
  induction h with
  | done => exact Nat.le_refl _
  -- a star is no line feed, and its run may hold some
  | run _ _ ih =>
    rw [List.count_cons_of_ne (by decide), List.count_append]
    omega
  | char _ hc _ ih =>
    obtain rfl := eq_of_beq hc
    rw [List.count_cons, List.count_cons]
    omega

/-- A layout in which stars do not run over line feeds is a layout of a text with as many line feeds
as the pattern has. -/
theorem fits_isRunChar_iff {pattern text : List Char} :
    Fits (Text.sameChar false) isRunChar pattern text ↔
      Fits (Text.sameChar false) (fun _ => true) pattern text ∧
        text.count '\n' = pattern.count '\n' := by
  constructor
  · intro h
    refine ⟨h.mono fun _ _ => rfl, ?_⟩
    induction h with
    | done => rfl
    | run hrun _ ih =>
      -- the runs hold no line feed, so they add nothing to the count
      have hnone : List.count '\n' _ = 0 :=
        List.count_eq_zero.2 fun hmem => by simpa [isRunChar] using hrun _ hmem
      rw [List.count_append, hnone, ih, List.count_cons_of_ne (by decide), Nat.zero_add]
    | char _ hc _ ih =>
      obtain rfl := eq_of_beq hc
      rw [List.count_cons, List.count_cons, ih]
  · rintro ⟨h, hcount⟩
    induction h with
    | done => exact .done
    | @run pattern run text _ h ih =>
      -- the rest of the text has all line feeds of the pattern, so none is left for the run
      have hle := h.count_le
      rw [List.count_append, List.count_cons_of_ne (by decide)] at hcount
      have hnone : run.count '\n' = 0 := by omega
      refine .run (fun c hc => ?_) (ih (by omega))
      rw [isRunChar, bne_iff_ne]
      rintro rfl
      exact List.count_eq_zero.1 hnone hc
    | char hx hc h ih =>
      obtain rfl := eq_of_beq hc
      rw [List.count_cons, List.count_cons] at hcount
      exact .char hx hc (ih (by omega))

end Glob

/-! ## The two backends -/

/-- A permitted constraint with a star becomes a glob, on the selector as it is written. -/
theorem Predicate.ofQuery_star (s : Selector) {p : String} (hstar : '*' ∈ p.toList)
    {allowed : Option (List String)} (hallowed : ¬ s.Barred allowed) :
    ofQuery (.equality s .equal (.text p)) { allowed } =
      .ok (.like s ⟨p.toList, false⟩ false) := by
  rw [ofQuery_eq_compile, compile, resolve_of_permit (Query.permit_eq_ok hallowed)]
  exact congrArg Except.ok (ofEquality_of_mem_star hstar false s .equal)

/-- The same constraint becomes a statement with one value, the LIKE pattern of the text. -/
theorem Sql.exists_ofQuery_star (s : Selector) {p : String} (hstar : '*' ∈ p.toList)
    {allowed : Option (List String)} (hallowed : ¬ s.Barred allowed) {table : String}
    (htable : table ≠ "") (columns : List String) :
    ∃ statement,
      ofQuery (.equality s .equal (.text p)) { table, columns, allowed } = .ok statement ∧
      statement.params = [.text (likePattern p)] := by
  -- an equality constraint has no fault but a barred selector
  obtain ⟨statement, hstatement⟩ := (vets (.equality s .equal (.text p)) htable columns allowed
    false).run_eq_ok_iff.2 (by
      rintro c hc reason hfault
      obtain rfl := List.mem_singleton.1 hc
      cases hfault with
      | selector hs hbarred =>
        cases hs
        exact hallowed hbarred)
  obtain ⟨ls, hbuilds, -⟩ := builds_of_ofQuery hstatement
  refine ⟨statement, hstatement, ?_⟩
  cases hbuilds with
  -- the values of the statement are those of its only constraint
  | equality _ h =>
    have hparams := congrArg Prod.snd h
    rw [show adapted false (.text p) = .text p from rfl, ofEquality,
      if_pos (List.contains_iff_mem.2 hstar)] at hparams
    exact hparams.symm

/-- A text with a star, as a constraint on a selector, gives a predicate and a statement with one
value. A document in which the selector stands for one text satisfies the predicate exactly if the
text satisfies the value as a LIKE pattern and has as many line feeds as the text with the star. -/
theorem accepts_iff_like_and_count (s : Selector) {p : String} (hstar : '*' ∈ p.toList)
    {allowed : Option (List String)} (hallowed : ¬ s.Barred allowed) {table : String}
    (htable : table ≠ "") (columns : List String) :
    ∃ predicate statement pattern,
      Predicate.ofQuery (.equality s .equal (.text p)) { allowed } = .ok predicate ∧
      Sql.ofQuery (.equality s .equal (.text p)) { table, columns, allowed } = .ok statement ∧
      statement.params = [.text pattern] ∧
      ∀ (doc : Json) (text : String), Predicate.candidates s doc = [.string text] →
        (predicate.accepts doc = true ↔
          Sql.Like pattern.toList text.toList ∧ text.toList.count '\n' = p.toList.count '\n') := by
  have hpredicate := Predicate.ofQuery_star s hstar hallowed
  obtain ⟨statement, hstatement, hparams⟩ :=
    Sql.exists_ofQuery_star s hstar hallowed htable columns
  refine ⟨_, statement, Sql.likePattern p, hpredicate, hstatement, hparams, ?_⟩
  intro doc text hcandidates
  -- both sides become layouts of the text along the stars
  rw [Sql.like_likePattern_iff, ← Glob.fits_isRunChar_iff, Predicate.accepts, hcandidates]
  show (([Json.string text].any (Predicate.isLike ⟨p.toList, false⟩)) != false) = true ↔ _
  rw [List.any_cons, List.any_nil, Bool.or_false, Bool.bne_false]
  exact Glob.accepts_iff_fits ⟨p.toList, false⟩ text

/-- A pattern in which a character has to be escaped, and a text with a line feed that the predicate
rejects. -/
theorem accepts_iff_like_and_count_two_stars :
    '*' ∈ "*_*".toList ∧ ¬ Selector.Barred (some ["name"]) ⟨none, "name"⟩ ∧ "people" ≠ "" ∧
      ∃ predicate,
        Predicate.ofQuery (.equality ⟨none, "name"⟩ .equal (.text "*_*"))
          { allowed := some ["name"] } = .ok predicate ∧
        predicate.accepts (.object [("name", .string "a_b")]) = true ∧
        predicate.accepts (.object [("name", .string "a\n_b")]) = false := by
  have hstar : '*' ∈ "*_*".toList := by decide
  have hallowed : ¬ Selector.Barred (some ["name"]) ⟨none, "name"⟩ := by
    rintro ⟨paths, hpaths, hbarred⟩
    cases hpaths
    exact hbarred List.mem_cons_self
  have htable : "people" ≠ "" := by decide
  obtain ⟨predicate, statement, pattern, hpredicate, hstatement, hparams, haccepts⟩ :=
    accepts_iff_like_and_count ⟨none, "name"⟩ hstar hallowed htable []
  refine ⟨hstar, hallowed, htable, predicate, hpredicate, ?_, ?_⟩
  · -- the underscore of the constraint reaches the pattern with a backslash before it
    cases hstatement
    obtain rfl : pattern = "%\\_%" := by
      have := (Literal.text.inj (List.cons.inj hparams).1).symm
      rwa [show Sql.likePattern "*_*" = "%\\_%" by decide] at this
    refine (haccepts _ "a_b" rfl).2 ⟨?_, by decide⟩
    have hend : Sql.Like ['%'] ['b'] := Sql.like_percent_iff.2 ⟨['b'], [], rfl, .done⟩
    exact Sql.like_percent_iff.2 ⟨['a'], ['_', 'b'], rfl, .escaped hend⟩
  · have hcount := haccepts (.object [("name", .string "a\n_b")]) "a\n_b" rfl
    refine eq_false_of_ne_true fun h => ?_
    exact absurd (hcount.1 h).2 (by decide)

/-- A line feed between the two letters is a run for the pattern and none for the glob. -/
theorem like_and_not_accepts_line_feed :
    ∃ predicate statement,
      Predicate.ofQuery (.equality ⟨none, "name"⟩ .equal (.text "a*b")) {} = .ok predicate ∧
      Sql.ofQuery (.equality ⟨none, "name"⟩ .equal (.text "a*b")) { table := "people" } =
        .ok statement ∧
      statement.params = [.text "a%b"] ∧ Sql.Like "a%b".toList "a\nb".toList ∧
      predicate.accepts (.object [("name", .string "a\nb")]) = false := by
  refine ⟨_, _, rfl, rfl, by decide, ?_, by decide⟩
  have hlast : Sql.Like ['b'] ['b'] := .plain (by decide) (by decide) (by decide) .done
  have hrun : Sql.Like ['%', 'b'] ['\n', 'b'] := Sql.like_percent_iff.2 ⟨['\n'], _, rfl, hlast⟩
  exact .plain (by decide) (by decide) (by decide) hrun

end FilterQuery
