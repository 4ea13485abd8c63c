import FilterQuery.Predicate.Glob

/-!
# What a glob matches

The matcher of globs fills rows of answers, one for each suffix of the pattern. What it computes is
said here without rows: `Fits same isRun pattern text` holds if the text can be laid out along the
pattern, a run of characters with `isRun` for each star and a character that is the `same` for every
other one.

* `hit_cons`, `hit_star_cons`: one entry of a row follows from its neighbours.
* `fits_star_cons`: so does a layout, where a star takes the first character of the text or not.
* `accepts_iff_fits`: a glob accepts the texts that fit its pattern.
-/

namespace FilterQuery.Glob

/-- The text can be laid out along the pattern. -/
inductive Fits (same : Char → Char → Bool) (isRun : Char → Bool) :
    List Char → List Char → Prop where
  | done : Fits same isRun [] []
  | run {pattern run text : List Char} (hrun : ∀ c ∈ run, isRun c = true)
      (h : Fits same isRun pattern text) : Fits same isRun (star :: pattern) (run ++ text)
  | char {x c : Char} {pattern text : List Char} (hx : x ≠ star) (hc : same x c = true)
      (h : Fits same isRun pattern text) : Fits same isRun (x :: pattern) (c :: text)

section Layouts

variable {same : Char → Char → Bool} {isRun : Char → Bool}

theorem fits_nil_iff {text : List Char} : Fits same isRun [] text ↔ text = [] := by
  constructor
  · intro h
    cases h
    rfl
  · rintro rfl
    exact .done

/-- The inversion of the rule for a star: the text starts with the run that the star takes. The run
may be empty, and it is not determined by the text. -/
theorem fits_star_iff {pattern text : List Char} :
    Fits same isRun (star :: pattern) text ↔
      ∃ run rest, text = run ++ rest ∧ (∀ c ∈ run, isRun c = true) ∧
        Fits same isRun pattern rest := by
  constructor
  · intro h
    -- the index is made a variable, so that all three rules can be asked for
    generalize hpattern : star :: pattern = whole at h
    cases h with
    | done => cases hpattern
    | run hrun h =>
      cases hpattern
      exact ⟨_, _, rfl, hrun, h⟩
    | char hx _ _ =>
      cases hpattern
      exact absurd rfl hx
  · rintro ⟨run, rest, rfl, hrun, h⟩
    exact .run hrun h

/-- The inversion of the rule for any other character: the text starts with a character that is the
same. -/
theorem fits_cons_iff {x : Char} (hx : x ≠ star) {pattern text : List Char} :
    Fits same isRun (x :: pattern) text ↔
      ∃ c rest, text = c :: rest ∧ same x c = true ∧ Fits same isRun pattern rest := by
  constructor
  · intro h
    cases h with
    | run => exact absurd rfl hx
    | char _ hc h => exact ⟨_, _, rfl, hc, h⟩
  · rintro ⟨c, rest, rfl, hc, h⟩
    exact .char hx hc h

/-- A star takes no character of the text, or its first one and is then as free as before. This is
the recursion that the table is filled by, one character of the text at a time. -/
theorem fits_star_cons {pattern : List Char} {c : Char} {text : List Char} :
    Fits same isRun (star :: pattern) (c :: text) ↔
      Fits same isRun pattern (c :: text) ∨
        isRun c = true ∧ Fits same isRun (star :: pattern) text := by
  rw [fits_star_iff, fits_star_iff]
  constructor
  · rintro ⟨run, rest, htext, hrun, h⟩
    cases run with
    -- the run is empty: the star has taken nothing
    | nil =>
      rw [List.nil_append] at htext
      exact .inl (htext ▸ h)
    | cons d run =>
      cases htext
      rw [List.forall_mem_cons] at hrun
      exact .inr ⟨hrun.1, run, rest, rfl, hrun.2, h⟩
  · rintro (h | ⟨hc, run, rest, rfl, hrun, h⟩)
    · exact ⟨[], c :: text, rfl, by simp, h⟩
    · exact ⟨c :: run, rest, rfl, List.forall_mem_cons.2 ⟨hc, hrun⟩, h⟩

theorem fits_star_nil {pattern : List Char} :
    Fits same isRun (star :: pattern) [] ↔ Fits same isRun pattern [] := by
  rw [fits_star_iff]
  constructor
  · rintro ⟨run, rest, htext, -, h⟩
    obtain ⟨rfl, rfl⟩ := List.append_eq_nil_iff.1 htext.symm
    exact h
  · intro h
    exact ⟨[], [], rfl, by simp, h⟩

/-- Layouts can be put side by side. The pattern may be cut anywhere, also between two stars. The
converse does not hold in this form, since the place of the cut in the text is free. -/
theorem Fits.append {pattern pattern' text text' : List Char} (h : Fits same isRun pattern text)
    (h' : Fits same isRun pattern' text') :
    Fits same isRun (pattern ++ pattern') (text ++ text') := by
  induction h with
  | done => exact h'
  | run hrun _ ih =>
    rw [List.append_assoc]
    exact .run hrun ih
  | char hx hc _ ih => exact .char hx hc ih

end Layouts

/-! ## The rows of the matcher -/

/-- The first entry of a row: whether the whole pattern matches the text. -/
def hit (ignoreCase : Bool) (pattern text : List Char) : Bool :=
  (rows ignoreCase pattern text).headD false

/-- A row without its first entry is the row of the pattern without its first character. So the
entries of one row are the answers for all suffixes of the pattern. -/
theorem tail_rows (ignoreCase : Bool) (x : Char) (pattern text : List Char) :
    (rows ignoreCase (x :: pattern) text).tail = rows ignoreCase pattern text := by
  induction text with
  | nil => rfl
  | cons c text ih => rw [rows, rows, nextRow, List.tail_cons, ih]

variable (ignoreCase : Bool)

theorem hit_nil_cons (c : Char) (text : List Char) : hit ignoreCase [] (c :: text) = false := rfl

theorem hit_cons_nil (x : Char) (pattern : List Char) :
    hit ignoreCase (x :: pattern) [] = (x == star && hit ignoreCase pattern []) := rfl

/-- The entry for a star: the star takes nothing, which is the next entry of the same row, or it
takes the character and goes on, which is the same entry of the row before. -/
theorem hit_star_cons (pattern : List Char) (c : Char) (text : List Char) :
    hit ignoreCase (star :: pattern) (c :: text) =
      (hit ignoreCase pattern (c :: text) ||
        (isRunChar c && hit ignoreCase (star :: pattern) text)) := by
  rw [hit, rows, nextRow, List.headD_cons, if_pos rfl, tail_rows]
  rfl

/-- The entry for any other character: it takes one character of the text, and the rest is the next
entry of the row before. -/
theorem hit_cons {x : Char} (hx : x ≠ star) (pattern : List Char) (c : Char) (text : List Char) :
    hit ignoreCase (x :: pattern) (c :: text) =
      (Text.sameChar ignoreCase x c && hit ignoreCase pattern text) := by
  rw [hit, rows, nextRow, List.headD_cons, if_neg hx, tail_rows]
  rfl

/-- An entry of a row says whether there is a layout. The pattern is taken apart first, and at a
star the text as well, because the star stays. -/
theorem hit_iff_fits (pattern text : List Char) :
    hit ignoreCase pattern text = true ↔
      Fits (Text.sameChar ignoreCase) isRunChar pattern text := by
  induction pattern generalizing text with
  | nil =>
    rw [fits_nil_iff]
    cases text with
    | nil => exact iff_of_true rfl rfl
    | cons c text => simp [hit_nil_cons]
  | cons x pattern ih =>
    by_cases hx : x = star
    · -- a star may take any number of characters, so the text is taken apart as well
      subst hx
      induction text with
      | nil => rw [hit_cons_nil, fits_star_nil, ← ih, beq_self_eq_true, Bool.true_and]
      | cons c text ihtext =>
        rw [hit_star_cons, fits_star_cons, Bool.or_eq_true, Bool.and_eq_true, ih, ihtext]
    · cases text with
      | nil => simp [hit_cons_nil, hx, fits_cons_iff]
      | cons c text => simp [hit_cons ignoreCase hx, fits_cons_iff hx, ih, and_assoc]

/-- A glob accepts a text if the text can be laid out along its pattern: the table of answers is
only a way to find out. -/
theorem accepts_iff_fits (g : Glob) (text : String) :
    g.accepts text = true ↔
      Fits (Text.sameChar g.ignoreCase) isRunChar g.pattern text.toList :=
  hit_iff_fits g.ignoreCase g.pattern text.toList

end FilterQuery.Glob
