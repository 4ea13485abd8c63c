import FilterQuery.Proofs.Query.Grammar

/-!
# What the reader does with a token

`Machine.step` mixes what a token means with the limits that may refuse it. Here the two are taken
apart.

* `Moves` lists what a token can do to the machine, one rule for each kind of transition.
  `moves_of_step` and `step_of_moves` say that the steps of the machine are these, as far as the
  limits allow. `Refuses` lists the errors with which a step fails.
* `Reaches depth m ts n m'`: the tokens `ts` take the machine from `m` to `m'`, `n` of them start a
  constraint, and no more than `depth` groups are open after any of them.
* `exists_halts_run`: every run of the parser reaches some machine and halts there in one of four
  ways; `run_of_reaches` and `exists_reaches_of_run` are about the runs that find a query.
-/

namespace FilterQuery

/-- The operand that is complete in this mode. -/
def Mode.completed? : Mode → Option Query
  | .selector s => some (.present s)
  | .complete q => some q
  | _ => none

namespace Machine

/-! ## One token -/

/-- What a token does to the machine, limits aside. -/
inductive Moves : Machine → PlacedToken → Machine → Prop where
  | openGroup {level outer} {t : PlacedToken} (ht : t.token = .openParen) :
      Moves ⟨.operand, level, outer⟩ t ⟨.operand, .empty, (t.offset, level) :: outer⟩
  | selector {level outer w s} {t : PlacedToken} (ht : t.token = .word w)
      (hs : Selector.ofPath? w = some s) :
      Moves ⟨.operand, level, outer⟩ t ⟨.selector s, level, outer⟩
  | equality {level outer s op} {t : PlacedToken} (ht : t.token = .equality op) :
      Moves ⟨.selector s, level, outer⟩ t ⟨.value s op, level, outer⟩
  | comparison {level outer s name} {t : PlacedToken} (ht : t.token = .comparison name) :
      Moves ⟨.selector s, level, outer⟩ t ⟨.scalar s (.ofName name), level, outer⟩
  | value {level outer s op v} {t : PlacedToken} (ht : Grammar.Scalar t.token v) :
      Moves ⟨.value s op, level, outer⟩ t ⟨.complete (.equality s op v), level, outer⟩
  | openList {level outer s op} {t : PlacedToken} (ht : t.token = .openParen) :
      Moves ⟨.value s op, level, outer⟩ t ⟨.item s op t.offset [], level, outer⟩
  | scalar {level outer s op v} {t : PlacedToken} (ht : Grammar.Scalar t.token v) :
      Moves ⟨.scalar s op, level, outer⟩ t ⟨.complete (.comparison s op v), level, outer⟩
  | item {level outer s op opened items v} {t : PlacedToken} (ht : Grammar.Scalar t.token v) :
      Moves ⟨.item s op opened items, level, outer⟩ t
        ⟨.items s op opened (v :: items), level, outer⟩
  | nextItem {level outer s op opened items} {t : PlacedToken} (ht : t.token = .comma) :
      Moves ⟨.items s op opened items, level, outer⟩ t ⟨.item s op opened items, level, outer⟩
  | closeList {level outer s op opened items} {t : PlacedToken} (ht : t.token = .closeParen) :
      Moves ⟨.items s op opened items, level, outer⟩ t
        ⟨.complete (.equality s op (.list items.reverse)), level, outer⟩
  | factor {mode : Mode} {level outer q} {t : PlacedToken} (hq : mode.completed? = some q)
      (ht : t.token = .semicolon) :
      Moves ⟨mode, level, outer⟩ t ⟨.operand, ⟨level.alternatives, q :: level.factors⟩, outer⟩
  | alternative {mode : Mode} {level outer q} {t : PlacedToken} (hq : mode.completed? = some q)
      (ht : t.token = .comma) :
      Moves ⟨mode, level, outer⟩ t ⟨.operand, ⟨level.conjoin q :: level.alternatives, []⟩, outer⟩
  | closeGroup {mode : Mode} {inner level opened outer q} {t : PlacedToken}
      (hq : mode.completed? = some q) (ht : t.token = .closeParen) :
      Moves ⟨mode, inner, (opened, level) :: outer⟩ t ⟨.complete (inner.close q), level, outer⟩

/-- The machine takes the same tokens for single values as the grammar, with the same values. -/
theorem literal?_eq_some_iff {t : Token} {v : Literal} :
    literal? t = some v ↔ Grammar.Scalar t v := by
  constructor
  · intro h
    cases t with
    | word text => cases h; exact .word text
    | quoted text => cases h; exact .quoted text
    | _ => cases h
  · intro h
    cases h <;> rfl

/-- Behind a complete operand, a step is one of three: a semicolon, a comma, or the parenthesis that
closes the group around it. -/
theorem moves_of_stepComplete {m m' : Machine} {q : Query} {t : PlacedToken}
    (hq : m.mode.completed? = some q) (h : m.stepComplete q t = .ok m') : Moves m t m' := by
  obtain ⟨mode, level, outer⟩ := m
  -- the three separators; a closing parenthesis needs a group around the level
  unfold stepComplete at h
  split at h
  · next ht => cases h; exact .factor hq ht
  · next ht => cases h; exact .alternative hq ht
  · next ht houter =>
    cases houter
    cases h
    exact .closeGroup hq ht
  · cases h

/-- Where an operand has to come, a step opens a group or takes a selector. -/
theorem moves_of_stepOperand {limits : Limits} {terms : Nat} {m m' : Machine} {t : PlacedToken}
    (hm : m.mode = .operand) (h : m.stepOperand limits terms t = .ok m') : Moves m t m' := by
  obtain ⟨mode, level, outer⟩ := m
  cases hm
  unfold stepOperand at h
  -- by the token: a parenthesis, a word, two kinds of operators, and everything else
  split at h
  · next ht =>
    split at h
    · cases h
    · cases h; exact .openGroup ht
  · next ht =>
    split at h
    · cases h
    · split at h
      · next hs => cases h; exact .selector ht hs
      · cases h
  · cases h
  · cases h
  · cases h

/-- Every step of the machine is a move. So what is proved of moves, rule by rule, holds of all
steps, under whatever limits. -/
theorem moves_of_step {limits : Limits} {terms : Nat} {m m' : Machine} {t : PlacedToken}
    (h : m.step limits terms t = .ok m') : Moves m t m' := by
  obtain ⟨mode, level, outer⟩ := m
  cases mode with
  | operand => exact moves_of_stepOperand rfl h
  | selector s =>
    simp only [step] at h
    split at h
    · next ht => cases h; exact .equality ht
    · next ht => cases h; exact .comparison ht
    · exact moves_of_stepComplete rfl h
  | value s op =>
    simp only [step] at h
    split at h
    · next ht => cases h; exact .openList ht
    · split at h
      · next hv => cases h; exact .value (literal?_eq_some_iff.1 hv)
      · cases h
  | scalar s op =>
    simp only [step] at h
    split at h
    · cases h
    · split at h
      · next hv => cases h; exact .scalar (literal?_eq_some_iff.1 hv)
      · cases h
  | item s op opened items =>
    simp only [step] at h
    split at h
    · next hv => cases h; exact .item (literal?_eq_some_iff.1 hv)
    · cases h
  | items s op opened items =>
    simp only [step] at h
    split at h
    · next ht => cases h; exact .nextItem ht
    · next ht => cases h; exact .closeList ht
    · cases h
  | complete q => exact moves_of_stepComplete rfl h

/-- A move that the limits allow is a step of the machine. The two conditions are about the state
behind the token and about the count with the token. -/
theorem step_of_moves {limits : Limits} {terms : Nat} {m m' : Machine} {t : PlacedToken}
    (h : Moves m t m') (hdepth : m'.outer.length ≤ limits.depth)
    (hterms : m.startsTerm t → terms ≤ limits.terms) : m.step limits terms t = .ok m' := by
  cases h with
  -- only the first two rules meet a limit
  | openGroup ht =>
    have : ¬ limits.depth < _ + 1 := Nat.not_lt.2 hdepth
    simp [step, stepOperand, ht, this]
  | selector ht hs =>
    have : ¬ limits.terms < terms := Nat.not_lt.2 (hterms (by simp [startsTerm, ht]))
    simp [step, stepOperand, ht, hs, this, enter]
  | equality ht => simp [step, ht, enter]
  | comparison ht => simp [step, ht, enter]
  | value ht => simp [step, ht.ne_openParen, literal?_eq_some_iff.2 ht, enter]
  | openList ht => simp [step, ht, enter]
  | scalar ht => simp [step, ht.ne_openParen, literal?_eq_some_iff.2 ht, enter]
  | item ht => simp [step, literal?_eq_some_iff.2 ht, enter]
  | nextItem ht => simp [step, ht, enter]
  | closeList ht => simp [step, ht, enter]
  | @factor mode _ _ _ _ hq ht =>
    cases mode <;> cases hq <;> simp [step, stepComplete, ht]
  | @alternative mode _ _ _ _ hq ht =>
    cases mode <;> cases hq <;> simp [step, stepComplete, ht]
  | @closeGroup mode _ _ _ _ _ _ hq ht =>
    cases mode <;> cases hq <;> simp [step, stepComplete, ht]

/-- A step goes no deeper than the limit, and a constraint that it starts is one that the limit
admits. -/
theorem within_of_step {limits : Limits} {terms : Nat} {m m' : Machine} {t : PlacedToken}
    (h : m.step limits terms t = .ok m') (hdepth : m.outer.length ≤ limits.depth) :
    m'.outer.length ≤ limits.depth ∧ (m.startsTerm t → terms ≤ limits.terms) := by
  -- only the first two rules below meet a limit; the others leave the counts or close a group
  have hmove := moves_of_step h
  cases hmove with
  | openGroup ht =>
    simp only [step, stepOperand, ht] at h
    split at h
    · cases h
    · next hroom => exact ⟨Nat.not_lt.1 hroom, by simp [startsTerm, ht]⟩
  | selector ht hs =>
    simp only [step, stepOperand, ht] at h
    split at h
    · cases h
    · next hroom => exact ⟨hdepth, fun _ => Nat.not_lt.1 hroom⟩
  | @factor mode _ _ _ _ hq _ | @alternative mode _ _ _ _ hq _ =>
    exact ⟨hdepth, by cases mode <;> cases hq <;> simp [startsTerm]⟩
  | @closeGroup mode _ _ _ _ _ _ hq _ =>
    exact ⟨Nat.le_of_succ_le hdepth, by cases mode <;> cases hq <;> simp [startsTerm]⟩
  | _ => exact ⟨hdepth, by simp [startsTerm]⟩

/-- The error with which a token is refused, where `terms` counts the constraints met so far, with
the one that the token may start. Only the first two rules come from the limits. -/
inductive Refuses (limits : Limits) (terms : Nat) (t : PlacedToken) : Machine → SyntaxError → Prop where
  | nestingTooDeep {level outer} (ht : t.token = .openParen)
      (hdepth : limits.depth < outer.length + 1) :
      Refuses limits terms t ⟨.operand, level, outer⟩ (.nestingTooDeep limits.depth t.offset)
  | tooManyTerms {level outer w} (ht : t.token = .word w) (hterms : limits.terms < terms) :
      Refuses limits terms t ⟨.operand, level, outer⟩ (.tooManyTerms limits.terms t.offset)
  | invalidSelector {level outer w} (ht : t.token = .word w) (hs : Selector.ofPath? w = none) :
      Refuses limits terms t ⟨.operand, level, outer⟩ (.invalidSelector w t.offset)
  | emptySelector {level outer}
      (ht : (∃ op, t.token = .equality op) ∨ ∃ name, t.token = .comparison name) :
      Refuses limits terms t ⟨.operand, level, outer⟩ (.emptySelector t.offset)
  | listInComparison {level outer s op} (ht : t.token = .openParen) :
      Refuses limits terms t ⟨.scalar s op, level, outer⟩ (.listInComparison op.name t.offset)
  | unexpected (m : Machine) : Refuses limits terms t m (unexpected t)

theorem refuses_of_stepComplete {limits : Limits} {terms : Nat} {m : Machine} {q : Query}
    {t : PlacedToken} {e : SyntaxError} (h : m.stepComplete q t = .error e) :
    Refuses limits terms t m e := by
  unfold stepComplete at h
  split at h <;> cases h
  exact .unexpected m

/-- Every step that fails gives one of the errors listed by `Refuses`, under the conditions that
stand there. -/
theorem refuses_of_step {limits : Limits} {terms : Nat} {m : Machine} {t : PlacedToken}
    {e : SyntaxError} (h : m.step limits terms t = .error e) : Refuses limits terms t m e := by
  obtain ⟨mode, level, outer⟩ := m
  cases mode with
  | operand =>
    simp only [step, stepOperand] at h
    split at h
    · next ht =>
      split at h
      · next hdepth => cases h; exact .nestingTooDeep ht hdepth
      · cases h
    · next ht =>
      split at h
      · next hterms => cases h; exact .tooManyTerms ht hterms
      · split at h
        · cases h
        · next hs => cases h; exact .invalidSelector ht hs
    · next ht => cases h; exact .emptySelector (.inl ⟨_, ht⟩)
    · next ht => cases h; exact .emptySelector (.inr ⟨_, ht⟩)
    · cases h; exact .unexpected _
  | selector s =>
    simp only [step] at h
    split at h
    · cases h
    · cases h
    · exact refuses_of_stepComplete h
  | value s op =>
    simp only [step] at h
    split at h
    · cases h
    · split at h
      · cases h
      · cases h; exact .unexpected _
  | scalar s op =>
    simp only [step] at h
    split at h
    · next ht => cases h; exact .listInComparison ht
    · split at h
      · cases h
      · cases h; exact .unexpected _
  | item s op opened items =>
    simp only [step] at h
    split at h
    · cases h
    · cases h; exact .unexpected _
  | items s op opened items =>
    simp only [step] at h
    split at h
    · cases h
    · cases h
    · cases h; exact .unexpected _
  | complete q => exact refuses_of_stepComplete h

theorem Moves.ne_endOfInput {m m' : Machine} {t : PlacedToken} (h : Moves m t m') :
    t.token ≠ .endOfInput := by
  intro hend
  cases h with
  | value ht => exact ht.ne_endOfInput hend
  | scalar ht => exact ht.ne_endOfInput hend
  | item ht => exact ht.ne_endOfInput hend
  | _ => simp_all

/-! ## Several tokens -/

/-- The tokens take the first machine to the second one. The number counts the constraints they
start, and at most `depth` groups are open after each of them. -/
inductive Reaches (depth : Nat) : Machine → List PlacedToken → Nat → Machine → Prop where
  | refl (m : Machine) : Reaches depth m [] 0 m
  | step {m m' m'' : Machine} {t : PlacedToken} {ts : List PlacedToken} {n : Nat}
      (hmove : Moves m t m') (hdepth : m'.outer.length ≤ depth)
      (hrest : Reaches depth m' ts n m'') :
      Reaches depth m (t :: ts) ((m.startsTerm t).toNat + n) m''

theorem Reaches.trans {depth : Nat} {a m b : Machine} {ts us : List PlacedToken} {n k : Nat}
    (h : Reaches depth a ts n m) (h' : Reaches depth m us k b) :
    Reaches depth a (ts ++ us) (n + k) b := by
  induction h with
  | refl _ => simpa using h'
  | step hmove hdepth _ ih =>
    rw [List.cons_append, Nat.add_assoc]
    exact .step hmove hdepth (ih h')

/-- A token that starts no constraint, as a run. -/
theorem Reaches.single {depth : Nat} {m m' : Machine} {t : PlacedToken} (hmove : Moves m t m')
    (hstart : m.startsTerm t = false) (hdepth : m'.outer.length ≤ depth) :
    Reaches depth m [t] 0 m' := by
  have := Reaches.step hmove hdepth (.refl m')
  rwa [hstart] at this

theorem Reaches.ne_endOfInput {depth n : Nat} {m m' : Machine} {ts : List PlacedToken}
    (h : Reaches depth m ts n m') : ∀ t ∈ ts, t.token ≠ .endOfInput := by
  induction h with
  | refl _ => simp
  | step hmove _ _ ih => exact List.forall_mem_cons.2 ⟨hmove.ne_endOfInput, ih⟩

theorem Reaches.mono {depth depth' : Nat} {m m' : Machine} {ts : List PlacedToken} {n : Nat}
    (hle : depth ≤ depth') (h : Reaches depth m ts n m') : Reaches depth' m ts n m' := by
  induction h with
  | refl _ => exact .refl _
  | step hmove hdepth _ ih => exact .step hmove (Nat.le_trans hdepth hle) ih

end Machine

/-! ## The parser -/

namespace Parser

open Machine

/-- The count that a step sees, as the runs of the machine count. The definition branches where the
relation adds zero or one. -/
theorem met_eq_add_toNat (m : Machine) (t : PlacedToken) (terms : Nat) :
    (if m.startsTerm t then terms + 1 else terms) = terms + (m.startsTerm t).toNat := by
  cases m.startsTerm t <;> rfl

/-- The parser follows every run that the limits allow, and goes on from the last machine. The
number of constraints is taken along, since the limit is about all of them. -/
theorem run_append_of_reaches {limits : Limits} {terms n : Nat} {m m' : Machine}
    {ts : List PlacedToken} (h : Reaches limits.depth m ts n m')
    (hterms : terms + n ≤ limits.terms) (us : List PlacedToken) (endOffset : Nat) :
    run limits endOffset m terms (ts ++ us) = run limits endOffset m' (terms + n) us := by
  induction h generalizing terms with
  | refl _ => rfl
  | @step m m' m'' t ts n hmove hdepth _ ih =>
    -- no limit refuses the first move, since what it starts is counted in `n`
    have hstep : m.step limits (if m.startsTerm t then terms + 1 else terms) t = .ok m' := by
      apply step_of_moves hmove hdepth
      intro hstart
      rw [hstart, Bool.toNat_true] at hterms
      simp only [hstart, if_true]
      omega
    rw [List.cons_append, run, if_neg hmove.ne_endOfInput]
    simp only [hstep]
    rw [met_eq_add_toNat, ih (by omega), Nat.add_assoc]

/-- A run over all tokens ends as the last machine does. -/
theorem run_of_reaches {limits : Limits} {endOffset terms n : Nat} {m m' : Machine}
    {ts : List PlacedToken} (h : Reaches limits.depth m ts n m')
    (hterms : terms + n ≤ limits.terms) :
    run limits endOffset m terms ts = (m'.finish endOffset, [], terms + n) := by
  have := run_append_of_reaches h hterms [] endOffset
  rwa [List.append_nil] at this

/-- How a run stops at a machine before the tokens that are left, and what it gives. The number
counts the constraints met before. -/
inductive Halts (limits : Limits) (endOffset : Nat) (m : Machine) (terms : Nat) :
    List PlacedToken → Except SyntaxError Query × List PlacedToken × Nat → Prop where
  | finish : Halts limits endOffset m terms [] (m.finish endOffset, [], terms)
  /-- A query is complete at an end of input that is not the closing one. -/
  | trailing {t : PlacedToken} {ts : List PlacedToken} {q : Query} (ht : t.token = .endOfInput)
      (hq : m.finish t.offset = .ok q) :
      Halts limits endOffset m terms (t :: ts)
        (.error (unexpected (firstOf ts endOffset)), t :: ts, terms)
  | unfinished {t : PlacedToken} {ts : List PlacedToken} {e : SyntaxError}
      (ht : t.token = .endOfInput) (he : m.finish t.offset = .error e) :
      Halts limits endOffset m terms (t :: ts) (.error e, t :: ts, terms)
  | refuse {t : PlacedToken} {ts : List PlacedToken} {e : SyntaxError}
      (ht : t.token ≠ .endOfInput)
      (he : m.step limits (terms + (m.startsTerm t).toNat) t = .error e) :
      Halts limits endOffset m terms (t :: ts)
        (.error e, afterError e t ts, terms + (m.startsTerm t).toNat)

/-- **What a run does.** It reads some of the tokens, within the limits, and halts. -/
theorem exists_halts_run {limits : Limits} {m : Machine} (hdepth : m.outer.length ≤ limits.depth)
    (endOffset terms : Nat) (ts : List PlacedToken) :
    ∃ before after n m', ts = before ++ after ∧ Reaches limits.depth m before n m' ∧
      (n = 0 ∨ terms + n ≤ limits.terms) ∧ m'.outer.length ≤ limits.depth ∧
      Halts limits endOffset m' (terms + n) after (run limits endOffset m terms ts) := by
  induction ts generalizing m terms with
  | nil => exact ⟨[], [], 0, m, rfl, .refl m, .inl rfl, hdepth, .finish⟩
  | cons t ts ih =>
    -- the run halts here, before any token is read
    have hhere {r} (hr : Halts limits endOffset m terms (t :: ts) r) :
        ∃ before after n m', t :: ts = before ++ after ∧ Reaches limits.depth m before n m' ∧
          (n = 0 ∨ terms + n ≤ limits.terms) ∧ m'.outer.length ≤ limits.depth ∧
          Halts limits endOffset m' (terms + n) after r :=
      ⟨[], t :: ts, 0, m, rfl, .refl m, .inl rfl, hdepth, hr⟩
    rw [run]
    split
    · next ht =>
      cases hfinish : m.finish t.offset with
      | ok q => exact hhere (.trailing ht hfinish)
      | error e => exact hhere (.unfinished ht hfinish)
    · next ht =>
      simp only [met_eq_add_toNat]
      cases hstep : m.step limits (terms + (m.startsTerm t).toNat) t with
      | error e => exact hhere (.refuse ht hstep)
      | ok m' =>
        -- the token is read: the state behind it is within the limits again, so the rest is as well
        obtain ⟨hdepth', hstart⟩ := within_of_step hstep hdepth
        obtain ⟨before, after, n, m'', rfl, hreach, hterms, hdepth'', hhalts⟩ :=
          ih hdepth' (terms + (m.startsTerm t).toNat)
        refine ⟨t :: before, after, (m.startsTerm t).toNat + n, m'', rfl,
          .step (moves_of_step hstep) hdepth' hreach, ?_, hdepth'', ?_⟩
        · cases hs : m.startsTerm t with
          | false => simpa [hs] using hterms
          | true =>
            have hmet := hstart hs
            simp only [hs, Bool.toNat_true] at hterms hmet ⊢
            omega
        · rwa [← Nat.add_assoc]

/-- Whenever the parser finds a query, it has read all tokens, within the limits, and the last
machine ends with the query. -/
theorem exists_reaches_of_run {limits : Limits} {endOffset terms : Nat} {m : Machine}
    {ts : List PlacedToken} {q : Query} (hdepth : m.outer.length ≤ limits.depth)
    (h : (run limits endOffset m terms ts).1 = .ok q) :
    ∃ n m', Reaches limits.depth m ts n m' ∧ (n = 0 ∨ terms + n ≤ limits.terms) ∧
      m'.finish endOffset = .ok q := by
  obtain ⟨before, after, n, m', rfl, hreach, hterms, -, hhalts⟩ :=
    exists_halts_run hdepth endOffset terms ts
  generalize run limits endOffset m terms (before ++ after) = r at h hhalts
  cases hhalts with
  | finish =>
    rw [List.append_nil]
    exact ⟨n, m', hreach, hterms, h⟩
  | trailing _ _ | unfinished _ _ | refuse _ _ => cases h

end Parser

end FilterQuery
