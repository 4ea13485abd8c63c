import FilterQuery.Proofs.Query.Machine

/-!
# Reading by descent

The language can also be read without a machine: one function for each rank of the grammar, a cursor
that moves along the tokens, and a nesting that grows with every group. Such a reader relies on
much that it does not check: that the cursor stands on a token and is not moved past the end, that
the token taken is the one just tested, that the nesting is in the limit, that a loop comes to its
end. Here each of them is a way to stop, so that a reading which relies on something wrong shows it.

* `Descent.parse`: the reading. Its loops are bounded by a number of rounds.
* `Follows`: a reading does what the run of the machine does from the same place, on success and on
  failure; `Follows.bind` composes readings.
* `parse_eq_run`: with as many rounds as there are tokens the reading gives the result of the
  parser, whatever the tokens are, and so it never stops for another reason.
-/

namespace FilterQuery

namespace Descent

/-- Why a reading stops before its end. -/
inductive Stop where
  /-- The tokens are no query. -/
  | error (e : SyntaxError)
  /-- The cursor has left the stream. -/
  | outside
  /-- The cursor was to move past an end of input. -/
  | pastEnd
  /-- A token is not of the kind that it was tested for. -/
  | impossible
  /-- An operand was started in more groups than the limit allows. -/
  | tooDeep
  /-- A loop or a recursion has used up its rounds. -/
  | exhausted
deriving DecidableEq

/-- Where a reading stands in the stream, and the constraints it has met. -/
structure Cursor where
  index : Nat
  terms : Nat
deriving DecidableEq

/-- A step of the reading. When it fails, the cursor stays where the failure was. -/
abbrev Reading : Type → Type := ExceptT Stop (StateM Cursor)

section Definitions

variable {α : Type} (stream : List PlacedToken) (limits : Limits)

/-- The token at the cursor. -/
def current : Reading PlacedToken := do
  let c ← get
  match stream[c.index]? with
  | some t => return t
  | none => throw .outside

/-- The token at the cursor, which moves on. -/
def take : Reading PlacedToken := do
  let t ← current stream
  if t.token = .endOfInput then throw .pastEnd
  else
    modify fun c => { c with index := c.index + 1 }
    return t

/-- Moves the cursor on. -/
def advance : Reading Unit := discard (take stream)

/-- Counts a constraint and gives the new count. -/
def countTerm : Reading Nat := do
  modify fun c => { c with terms := c.terms + 1 }
  let c ← get
  return c.terms

/-- Stops because the tokens are no query. -/
def fail (e : SyntaxError) : Reading α := throw (.error e)

/-- A single value. -/
def literal : Reading Literal := do
  let t ← current stream
  if t.token.isLiteral then
    let taken ← take stream
    match taken.token with
    | .word text => return .ofWord text
    | .quoted text => return .text text
    | _ => throw .impossible
  else fail (Machine.unexpected t)

/-- The values of the list opened at the given offset, and the parenthesis that closes it. -/
def items (opened : Nat) : Nat → Reading (List Literal)
  | 0 => throw .exhausted
  | rounds + 1 => do
    -- a value first: neither an empty list nor a comma before the parenthesis is a list
    let v ← literal stream
    let t ← current stream
    match t.token with
    | .comma => do
      advance stream
      let vs ← items opened rounds
      return v :: vs
    | .closeParen => do
      advance stream
      return [v]
    | .endOfInput => fail (.unclosedGroup opened)
    | _ => fail (Machine.unexpected t)

/-- A single value or a list of them. -/
def value (rounds : Nat) : Reading Literal := do
  let t ← current stream
  if t.token = .openParen then
    advance stream
    let vs ← items stream t.offset rounds
    return .list vs
  else literal stream

/-- What follows the selector of a constraint. -/
def argument (rounds : Nat) (s : Selector) : Reading Query := do
  let t ← current stream
  match t.token with
  | .equality op => do
    advance stream
    let v ← value stream rounds
    return .equality s op v
  | .comparison name => do
    advance stream
    let u ← current stream
    if u.token = .openParen then fail (.listInComparison (Comparison.ofName name).name u.offset)
    else
      let v ← literal stream
      return .comparison s (.ofName name) v
  | _ => return .present s

/-- A constraint; the cursor stands on a word. -/
def constraint (rounds : Nat) : Reading Query := do
  let t ← take stream
  match t.token with
  | .word text =>
    match Selector.ofPath? text with
    | some s => argument stream rounds s
    -- the word has been taken, so the cursor stands behind it
    | none => fail (.invalidSelector text t.offset)
  | _ => throw .impossible

/-- Operands with a separator between them, joined to the right. -/
def chain (separator : Token) (join : Query → Query → Query) (operand : Reading Query) :
    Nat → Reading Query
  | 0 => throw .exhausted
  | rounds + 1 => do
    let q ← operand
    let t ← current stream
    if t.token = separator then
      advance stream
      let rest ← chain separator join operand rounds
      return join q rest
    else return q

/-- Alternatives whose factors are read by `operand`. -/
def alternatives (operand : Reading Query) (rounds : Nat) : Reading Query :=
  chain stream .comma .or (chain stream .semicolon .and operand rounds) rounds

/-- The group opened at the given offset; the cursor stands on its parenthesis. -/
def group (operand : Reading Query) (rounds opened : Nat) : Reading Query := do
  advance stream
  let q ← alternatives stream operand rounds
  let t ← current stream
  match t.token with
  | .closeParen => do
    advance stream
    return q
  | .endOfInput => fail (.unclosedGroup opened)
  | _ => fail (Machine.unexpected t)

/-- A group or a constraint inside `nesting` groups. -/
def operand : Nat → Nat → Reading Query
  | 0, _ => throw .exhausted
  | rounds + 1, nesting => do
    if limits.depth < nesting then throw .tooDeep
    else
      let t ← current stream
      match t.token with
      | .openParen =>
        if limits.depth < nesting + 1 then fail (.nestingTooDeep limits.depth t.offset)
        else group stream (operand rounds (nesting + 1)) rounds t.offset
      | .word _ => do
        -- counted before the limit is tested, so the count may exceed the limit by one
        let terms ← countTerm
        if limits.terms < terms then fail (.tooManyTerms limits.terms t.offset)
        else constraint stream rounds
      | .equality _ => fail (.emptySelector t.offset)
      | .comparison _ => fail (.emptySelector t.offset)
      | _ => fail (Machine.unexpected t)

/-- The query, if nothing follows it but the end of input, which has to be the last token. -/
def closing (q : Query) : Reading Query := do
  let t ← current stream
  if t.token = .endOfInput then
    let c ← get
    match stream[c.index + 1]? with
    | some trailing => fail (Machine.unexpected trailing)
    | none => return q
  else fail (Machine.unexpected t)

/-- Reads the stream from the cursor as one query. -/
def parse (rounds : Nat) : Reading Query := do
  let q ← alternatives stream (operand stream limits rounds 0) rounds
  closing stream q

end Definitions

/-! ## What the steps do at a token -/

variable {α β : Type} {stream : List PlacedToken} {i n : Nat} {t : PlacedToken}

/-- After a step that succeeds, the reading goes on with its value from where it left the cursor.
With its counterpart for failures, this is all that is used of the monad below. -/
theorem bind_of_ok {x : Reading α} {f : α → Reading β} {c c' : Cursor} {a : α}
    (h : x c = (.ok a, c')) : (x >>= f) c = f a c' := by
  show (ExceptT.bindCont f (x c).1) (x c).2 = f a c'
  rw [h]
  rfl

theorem bind_of_error {x : Reading α} {f : α → Reading β} {c c' : Cursor} {s : Stop}
    (h : x c = (.error s, c')) : (x >>= f) c = (.error s, c') := by
  show (ExceptT.bindCont f (x c).1) (x c).2 = _
  rw [h]
  rfl

/-- A look at the current token leaves the cursor where it is. The three lemmas here are rewriting
rules for the steps at a place where there is a token. -/
theorem current_bind {f : PlacedToken → Reading β} (ht : stream[i]? = some t) :
    (current stream >>= f) ⟨i, n⟩ = f t ⟨i, n⟩ := by
  apply bind_of_ok
  show (match stream[i]? with
    | some t => (pure t : Reading PlacedToken)
    | none => throw Stop.outside) ⟨i, n⟩ = _
  rw [ht]
  rfl

theorem take_bind {f : PlacedToken → Reading β} (ht : stream[i]? = some t)
    (hne : t.token ≠ .endOfInput) : (take stream >>= f) ⟨i, n⟩ = f t ⟨i + 1, n⟩ := by
  apply bind_of_ok
  rw [take, current_bind ht, if_neg hne]
  rfl

theorem advance_bind {f : Unit → Reading β} (ht : stream[i]? = some t)
    (hne : t.token ≠ .endOfInput) : (advance stream >>= f) ⟨i, n⟩ = f () ⟨i + 1, n⟩ := by
  apply bind_of_ok
  show (take stream >>= fun _ => pure ()) ⟨i, n⟩ = _
  rw [take_bind ht hne]
  rfl

end Descent

/-! ## The run of the parser from a place in its stream -/

namespace Parser

open Machine

variable {p : Parser} {m m' : Machine} {i n k : Nat} {t : PlacedToken} {e : SyntaxError}

/-- All tokens of a parser, with the closing end of input. -/
def stream (p : Parser) : List PlacedToken := p.tokens ++ [⟨.endOfInput, p.endOffset⟩]

theorem length_stream (p : Parser) : p.stream.length = p.tokens.length + 1 := by simp [stream]

/-- The run of a machine over the tokens from a given one on. -/
def runFrom (p : Parser) (m : Machine) (n i : Nat) :
    Except SyntaxError Query × List PlacedToken × Nat :=
  run p.limits p.endOffset m n (p.tokens.drop i)

theorem le_of_stream (ht : p.stream[i]? = some t) : i ≤ p.tokens.length := by
  have hlt : i < p.stream.length := (List.getElem?_eq_some_iff.1 ht).1
  rw [length_stream] at hlt
  omega

/-- Each of these places has a token: the first one of what is left, or the closing end of input. -/
theorem getElem?_stream (hi : i ≤ p.tokens.length) :
    p.stream[i]? = some (firstOf (p.tokens.drop i) p.endOffset) := by
  rw [← List.head?_drop, stream, List.drop_append_of_le_length hi]
  cases p.tokens.drop i <;> rfl

/-- A token is one of those before the closing end of input, or it is that one. The machine is given
the tokens without the closing end of input, the reading has it in its stream. -/
theorem drop_of_stream (ht : p.stream[i]? = some t) :
    i < p.tokens.length ∧ p.tokens.drop i = t :: p.tokens.drop (i + 1) ∨
      p.tokens.length ≤ i ∧ p.tokens.drop i = [] ∧ t = ⟨.endOfInput, p.endOffset⟩ := by
  have hfirst := getElem?_stream (le_of_stream ht)
  rw [ht, Option.some_inj] at hfirst
  rcases Nat.lt_or_ge i p.tokens.length with hlt | hge
  · left
    rw [List.drop_eq_getElem_cons hlt] at hfirst ⊢
    exact ⟨hlt, by rw [hfirst]; rfl⟩
  · right
    have hdrop : p.tokens.drop i = [] := List.drop_eq_nil_of_le hge
    rw [hdrop] at hfirst
    exact ⟨hge, hdrop, hfirst⟩

/-- Behind a token other than the end of input there is another one, so the cursor can move on. This
is why a reading never leaves the stream: it moves on only over such a token. -/
theorem exists_next (ht : p.stream[i]? = some t) (hne : t.token ≠ .endOfInput) :
    p.tokens.drop i = t :: p.tokens.drop (i + 1) ∧ ∃ u, p.stream[i + 1]? = some u := by
  rcases drop_of_stream ht with ⟨hlt, hdrop⟩ | ⟨_, _, rfl⟩
  · exact ⟨hdrop, _, getElem?_stream hlt⟩
  · exact absurd rfl hne

/-- Where the machine reads the token, its run goes on behind it. A word where an operand has to
come is counted in this step. -/
theorem runFrom_of_step (ht : p.stream[i]? = some t) (hne : t.token ≠ .endOfInput)
    (hk : n + (m.startsTerm t).toNat = k) (hstep : m.step p.limits k t = .ok m') :
    p.runFrom m n i = p.runFrom m' k (i + 1) := by
  unfold runFrom
  rw [(exists_next ht hne).1, run, if_neg hne]
  simp only [met_eq_add_toNat, hk, hstep]

/-- Where the machine refuses the token, its run ends there. What is left of the tokens depends on
the error: some are found before the token is taken, some after. -/
theorem runFrom_of_refused (ht : p.stream[i]? = some t) (hne : t.token ≠ .endOfInput)
    (hk : n + (m.startsTerm t).toNat = k) (hstep : m.step p.limits k t = .error e) :
    p.runFrom m n i = (.error e, afterError e t (p.tokens.drop (i + 1)), k) := by
  unfold runFrom
  rw [(exists_next ht hne).1, run, if_neg hne]
  simp only [met_eq_add_toNat, hk, hstep]

/-- Where the input ends and the machine is not complete, its run ends there with nothing taken. -/
theorem runFrom_of_unfinished (ht : p.stream[i]? = some t) (hend : t.token = .endOfInput)
    (hfinish : m.finish t.offset = .error e) :
    p.runFrom m n i = (.error e, p.tokens.drop i, n) := by
  unfold runFrom
  rcases drop_of_stream ht with ⟨-, hdrop⟩ | ⟨-, hdrop, rfl⟩
  · rw [hdrop, run, if_pos hend, hfinish]
  · rw [hdrop, run, hfinish]

/-- Two machines that do the same at the next token have the same run. This is used where a reading
has returned and the machine is still in the state that a token will complete. -/
theorem runFrom_congr (ht : p.stream[i]? = some t)
    (hstep : t.token ≠ .endOfInput → ∀ k, m.step p.limits k t = m'.step p.limits k t)
    (hstart : m.startsTerm t = m'.startsTerm t)
    (hfinish : t.token = .endOfInput → m.finish t.offset = m'.finish t.offset) :
    p.runFrom m n i = p.runFrom m' n i := by
  unfold runFrom
  rcases drop_of_stream ht with ⟨-, hdrop⟩ | ⟨-, hdrop, rfl⟩
  · rw [hdrop, run, run]
    split
    · next hend => rw [hfinish hend]
    · next hne => simp only [hstart, hstep hne]
  · rw [hdrop, run, run]
    have : m.finish p.endOffset = m'.finish p.endOffset := hfinish rfl
    rw [this]

end Parser

namespace Descent

open FilterQuery.Machine FilterQuery.Parser

/-! ## Readings that follow the machine -/

section

variable {α β : Type} {p : Parser} {m m' : Machine} {i n : Nat} {t : PlacedToken}
  {next : α → Machine} {after : Token → Prop}

/-- An outcome of a reading that starts at the token `i`, where the machine is `m`. If the reading
gives a value, the machine goes on from where the cursor stands as `next` says, before a token that
`after` admits. If it fails, the run of the machine does so at the same place. -/
inductive Follows (p : Parser) (m : Machine) (i n : Nat) (next : α → Machine)
    (after : Token → Prop) : Except Stop α × Cursor → Prop where
  | done {a : α} {j k : Nat} {t : PlacedToken} (hle : i ≤ j) (ht : p.stream[j]? = some t)
      (hafter : after t.token) (hrun : p.runFrom m n i = p.runFrom (next a) k j) :
      Follows p m i n next after (.ok a, ⟨j, k⟩)
  | failed {e : SyntaxError} {j k : Nat} (hle : i ≤ j) (hj : j ≤ p.tokens.length)
      (hrun : p.runFrom m n i = (.error e, p.tokens.drop j, k)) :
      Follows p m i n next after (.error (.error e), ⟨j, k⟩)

/-- What follows the machine from a later place follows it from an earlier one, if the machine gets
from there to here. -/
theorem Follows.of_runFrom {out : Except Stop α × Cursor} {j k : Nat} (hle : i ≤ j)
    (hrun : p.runFrom m n i = p.runFrom m' k j) (h : Follows p m' j k next after out) :
    Follows p m i n next after out := by
  cases h with
  | done hle' ht' hafter hrun' => exact .done (Nat.le_trans hle hle') ht' hafter (hrun.trans hrun')
  | failed hle' hj hrun' => exact .failed (Nat.le_trans hle hle') hj (hrun.trans hrun')

/-- Readings one after another. The first one ends where the second one starts, and what the first
one gives decides about the machine there. -/
theorem Follows.bind {x : Reading α} {f : α → Reading β} {next' : β → Machine}
    {after' : Token → Prop} (hx : Follows p m i n next after (x ⟨i, n⟩))
    (hf : ∀ a j k t, i ≤ j → p.stream[j]? = some t → after t.token →
      Follows p (next a) j k next' after' (f a ⟨j, k⟩)) :
    Follows p m i n next' after' ((x >>= f) ⟨i, n⟩) := by
  -- the outcome of the first reading decides whether there is a second one
  generalize hout : x ⟨i, n⟩ = out at hx
  cases hx with
  | @done a j k t hle ht hafter hrun =>
    rw [bind_of_ok hout]
    exact .of_runFrom hle hrun (hf a j k t hle ht hafter)
  | failed hle hj hrun =>
    rw [bind_of_error hout]
    exact .failed hle hj hrun

/-- A reading goes on behind a token that the machine reads without starting a constraint. The state
behind it has to be within the limit on nesting, which only a group can exceed. -/
theorem Follows.step {out : Except Stop α × Cursor} (ht : p.stream[i]? = some t)
    (hmove : Moves m t m') (hstart : m.startsTerm t = false)
    (hdepth : m'.outer.length ≤ p.limits.depth) (h : Follows p m' (i + 1) n next after out) :
    Follows p m i n next after out := by
  have hstep : m.step p.limits n t = .ok m' :=
    step_of_moves hmove hdepth fun hs => by rw [hstart] at hs; cases hs
  exact h.of_runFrom (Nat.le_succ i)
    (runFrom_of_step ht hmove.ne_endOfInput (by simp [hstart]) hstep)

/-- A reading moves on over a token that the machine reads without starting a constraint. There is a
token behind it for what comes next. -/
theorem Follows.advance {f : Unit → Reading α} (ht : p.stream[i]? = some t)
    (hmove : Moves m t m') (hstart : m.startsTerm t = false)
    (hdepth : m'.outer.length ≤ p.limits.depth)
    (h : ∀ u, p.stream[i + 1]? = some u → Follows p m' (i + 1) n next after (f () ⟨i + 1, n⟩)) :
    Follows p m i n next after ((Descent.advance p.stream >>= f) ⟨i, n⟩) := by
  obtain ⟨-, u, hu⟩ := exists_next ht hmove.ne_endOfInput
  rw [advance_bind ht hmove.ne_endOfInput]
  exact .step ht hmove hstart hdepth (h u hu)

/-- A reading fails at a token where the machine cannot go on. -/
theorem Follows.refuse {e : SyntaxError} (ht : p.stream[i]? = some t)
    (hstep : t.token ≠ .endOfInput → m.step p.limits n t = .error e)
    (hfinish : t.token = .endOfInput → m.finish t.offset = .error e)
    (hstart : m.startsTerm t = false) (he : ∀ ts, afterError e t ts = t :: ts) :
    Follows p m i n next after (fail e ⟨i, n⟩) := by
  apply Follows.failed (Nat.le_refl i) (le_of_stream ht)
  -- at the end of input the machine is asked to finish, at every other token to take a step
  by_cases hend : t.token = .endOfInput
  · exact runFrom_of_unfinished ht hend (hfinish hend)
  · rw [(exists_next ht hend).1, ← he]
    exact runFrom_of_refused ht hend (by simp [hstart]) (hstep hend)

theorem Follows.pure {a : α} (ht : p.stream[i]? = some t) (hafter : after t.token)
    (hrun : p.runFrom m n i = p.runFrom (next a) n i) :
    Follows p m i n next after ((Pure.pure a : Reading α) ⟨i, n⟩) :=
  .done (Nat.le_refl i) ht hafter hrun

end

/-! ## One reading after the other -/

section

variable {p : Parser} {level : Level} {outer : List (Nat × Level)} {i n rounds : Nat}
  {t : PlacedToken}

/-- The condition on the next token that every token meets. -/
def anyToken (_ : Token) : Prop := True

/-- A single value is read wherever the machine wants one. The machine is given by what it does at
the token: it takes a value and refuses everything else as unexpected. -/
theorem follows_literal {m : Machine} {next : Literal → Machine} (ht : p.stream[i]? = some t)
    (hread : ∀ v, Grammar.Scalar t.token v → Moves m t (next v))
    (hdepth : ∀ v, (next v).outer.length ≤ p.limits.depth) (hstart : m.startsTerm t = false)
    (hstep : literal? t.token = none → t.token ≠ .endOfInput →
      m.step p.limits n t = .error (unexpected t))
    (hfinish : m.finish t.offset = .error (unexpected ⟨.endOfInput, t.offset⟩)) :
    Follows p m i n next anyToken (literal p.stream ⟨i, n⟩) := by
  rw [literal, current_bind ht]
  -- the test and the match behind it agree on what a value is, so the match has no other case
  by_cases hlit : t.token.isLiteral
  · have hne : t.token ≠ .endOfInput := by
      intro hend
      rw [hend] at hlit
      cases hlit
    obtain ⟨-, u, hu⟩ := exists_next ht hne
    rw [if_pos hlit, take_bind ht hne]
    cases htoken : t.token with
    | word text =>
      rw [htoken] at hread
      exact .step ht (hread _ (.word text)) hstart (hdepth _) (.pure hu trivial rfl)
    | quoted text =>
      rw [htoken] at hread
      exact .step ht (hread _ (.quoted text)) hstart (hdepth _) (.pure hu trivial rfl)
    | _ =>
      rw [htoken] at hlit
      cases hlit
  · rw [if_neg hlit]
    apply Follows.refuse ht _ _ hstart (fun _ => rfl)
    · intro hne
      apply hstep _ hne
      cases htoken : t.token <;> simp_all [literal?, Token.isLiteral]
    · intro hend
      rw [hfinish, unexpected, unexpected, hend]

/-- The values of a list, with those read so far kept by the machine in reverse. Each value takes a
round and at least one token, so the rounds suffice. -/
theorem follows_items (hdepth : outer.length ≤ p.limits.depth) {s : Selector} {op : Equality}
    {opened : Nat} {vs : List Literal} (ht : p.stream[i]? = some t)
    (hrounds : p.tokens.length < i + rounds) :
    Follows p ⟨.item s op opened vs, level, outer⟩ i n
      (fun ws => ⟨.complete (.equality s op (.list (vs.reverse ++ ws))), level, outer⟩) anyToken
      (items p.stream opened rounds ⟨i, n⟩) := by
  induction rounds generalizing i n vs t with
  | zero =>
    have := le_of_stream ht
    omega
  | succ rounds ih =>
    have hliteral : Follows p ⟨.item s op opened vs, level, outer⟩ i n
        (fun v => ⟨.items s op opened (v :: vs), level, outer⟩) anyToken
        (literal p.stream ⟨i, n⟩) :=
      follows_literal ht (fun v hv => .item hv) (fun _ => hdepth) rfl
        (fun hv _ => by simp [step, hv]) rfl
    rw [items]
    apply hliteral.bind
    -- a value has been read; the token behind it says whether there is another one
    intro v j k u hj hu _
    rw [current_bind hu]
    cases htoken : u.token with
    | comma =>
      apply Follows.advance hu (.nextItem htoken) rfl hdepth
      intro w hw
      apply (ih hw (by omega)).bind
      intro ws j k u _ hu _
      exact .pure hu trivial (by simp)
    | closeParen =>
      apply Follows.advance hu (.closeList htoken) rfl hdepth
      intro w hw
      exact .pure hw trivial (by simp)
    | endOfInput =>
      exact .refuse hu (fun hne => absurd htoken hne) (fun _ => rfl) rfl (fun _ => rfl)
    | _ =>
      exact .refuse hu (fun _ => by simp [step, htoken]) (fun hend => by simp [htoken] at hend) rfl
        (fun _ => rfl)

/-- What an equality operator takes is a list behind a parenthesis and a single value otherwise. -/
theorem follows_value (hdepth : outer.length ≤ p.limits.depth) {s : Selector} {op : Equality}
    (ht : p.stream[i]? = some t) (hrounds : p.tokens.length < i + rounds) :
    Follows p ⟨.value s op, level, outer⟩ i n
      (fun v => ⟨.complete (.equality s op v), level, outer⟩) anyToken
      (value p.stream rounds ⟨i, n⟩) := by
  rw [value, current_bind ht]
  by_cases hopen : t.token = .openParen
  · rw [if_pos hopen]
    apply Follows.advance ht (.openList hopen) rfl hdepth
    intro u hu
    apply (follows_items hdepth hu (by omega)).bind
    intro vs j k u _ hu _
    exact .pure hu trivial rfl
  · rw [if_neg hopen]
    exact follows_literal ht (fun v hv => .value hv) (fun _ => hdepth) rfl
      (fun hv _ => by simp [step, hopen, hv]) rfl

/-- Before a token that is no operator, a selector stands for its constraint. The reading has
returned the constraint by then, and the machine decides only at the next token. -/
theorem runFrom_selector {s : Selector} (ht : p.stream[i]? = some t)
    (heq : ∀ op, t.token ≠ .equality op) (hcmp : ∀ name, t.token ≠ .comparison name) :
    p.runFrom ⟨.selector s, level, outer⟩ n i =
      p.runFrom ⟨.complete (.present s), level, outer⟩ n i := by
  apply runFrom_congr ht
  · intro _ k
    simp only [step]
    rfl
  · rfl
  · intro _
    rfl

/-- What follows a selector is read as its operator says; without an operator nothing is read. -/
theorem follows_argument (hdepth : outer.length ≤ p.limits.depth) {s : Selector}
    (ht : p.stream[i]? = some t) (hrounds : p.tokens.length < i + rounds) :
    Follows p ⟨.selector s, level, outer⟩ i n (fun q => ⟨.complete q, level, outer⟩) anyToken
      (argument p.stream rounds s ⟨i, n⟩) := by
  rw [argument, current_bind ht]
  cases htoken : t.token with
  | equality op =>
    apply Follows.advance ht (.equality htoken) rfl hdepth
    intro u hu
    apply (follows_value hdepth hu (by omega)).bind
    intro v j k u _ hu _
    exact .pure hu trivial rfl
  | comparison name =>
    apply Follows.advance ht (.comparison htoken) rfl hdepth
    intro u hu
    rw [current_bind hu]
    split
    · next hopen =>
      exact .refuse hu (fun _ => by simp [step, hopen]) (fun hend => by simp [hopen] at hend) rfl
        (fun _ => rfl)
    · next hopen =>
      have hliteral : Follows p ⟨.scalar s (.ofName name), level, outer⟩ (i + 1) n
          (fun v => ⟨.complete (.comparison s (.ofName name) v), level, outer⟩) anyToken
          (literal p.stream ⟨i + 1, n⟩) :=
        follows_literal hu (fun v hv => .scalar hv) (fun _ => hdepth) rfl
          (fun hv _ => by simp [step, hopen, hv]) rfl
      apply hliteral.bind
      intro v j k u _ hu _
      exact .pure hu trivial rfl
  | _ => exact .pure ht trivial (runFrom_selector ht (by simp [htoken]) (by simp [htoken]))

theorem countTerm_bind {f : Nat → Reading Query} :
    (countTerm >>= f) ⟨i, n⟩ = f (n + 1) ⟨i, n + 1⟩ := rfl

/-- A word starts a constraint, which the reading has counted already and the machine counts in this
step. A word that is no selector is found out only after it has been taken. -/
theorem follows_constraint (hdepth : outer.length ≤ p.limits.depth) {text : String}
    (ht : p.stream[i]? = some t) (htoken : t.token = .word text) (hterms : n + 1 ≤ p.limits.terms)
    (hrounds : p.tokens.length < i + (rounds + 1)) :
    Follows p ⟨.operand, level, outer⟩ i n (fun q => ⟨.complete q, level, outer⟩) anyToken
      (constraint p.stream rounds ⟨i, n + 1⟩) := by
  have hne : t.token ≠ .endOfInput := by simp [htoken]
  have hmet : n + (startsTerm ⟨.operand, level, outer⟩ t).toNat = n + 1 := by
    simp [startsTerm, htoken]
  obtain ⟨hdrop, u, hu⟩ := exists_next ht hne
  rw [constraint, take_bind ht hne]
  simp only [htoken]
  cases hs : Selector.ofPath? text with
  | some s =>
    have hstep : (⟨.operand, level, outer⟩ : Machine).step p.limits (n + 1) t =
        .ok ⟨.selector s, level, outer⟩ :=
      step_of_moves (.selector htoken hs) hdepth fun _ => hterms
    exact (follows_argument hdepth hu (by omega)).of_runFrom (Nat.le_succ i)
      (runFrom_of_step ht hne hmet hstep)
  | none =>
    -- the word has been taken when it turns out to be no selector
    have hstep : (⟨.operand, level, outer⟩ : Machine).step p.limits (n + 1) t =
        .error (.invalidSelector text t.offset) := by
      simp [step, stepOperand, htoken, hs, Nat.not_lt.2 hterms]
    exact .failed (Nat.le_succ i) (le_of_stream hu) (runFrom_of_refused ht hne hmet hstep)

/-- A chain does what its operands do one after another. The operands read so far are kept by the
level that `place` makes of them. -/
theorem follows_chain (place : List Query → Level) (hdepth : outer.length ≤ p.limits.depth)
    {separator : Token} {join : Query → Query → Query} {operand : Reading Query}
    {after : Token → Prop} {low : Nat}
    (hoperand : ∀ qs i n t, low ≤ i → p.stream[i]? = some t →
      Follows p ⟨.operand, place qs, outer⟩ i n (fun q => ⟨.complete q, place qs, outer⟩) after
        (operand ⟨i, n⟩))
    (hmove : ∀ q qs t, t.token = separator →
      Moves ⟨.complete q, place qs, outer⟩ t ⟨.operand, place (q :: qs), outer⟩)
    (hjoin : ∀ q last qs i n t, p.stream[i]? = some t → after t.token → t.token ≠ separator →
      p.runFrom ⟨.complete last, place (q :: qs), outer⟩ n i =
        p.runFrom ⟨.complete (join q last), place qs, outer⟩ n i)
    (qs : List Query) (hlow : low ≤ i) (ht : p.stream[i]? = some t)
    (hrounds : p.tokens.length < i + rounds) :
    Follows p ⟨.operand, place qs, outer⟩ i n (fun q => ⟨.complete q, place qs, outer⟩)
      (fun u => after u ∧ u ≠ separator)
      (chain p.stream separator join operand rounds ⟨i, n⟩) := by
  -- each round reads one operand; the operands before it are joined to what the rest gives
  induction rounds generalizing qs i n t with
  | zero =>
    have := le_of_stream ht
    omega
  | succ rounds ih =>
    rw [chain]
    apply (hoperand qs i n t hlow ht).bind
    intro q j k u hj hu hafter
    rw [current_bind hu]
    -- the chain goes on behind a separator, and any other token ends it
    by_cases hsep : u.token = separator
    · rw [if_pos hsep]
      apply Follows.advance hu (hmove q qs u hsep) rfl hdepth
      intro w hw
      apply (ih (q :: qs) (by omega) hw (by omega)).bind
      intro last j k u _ hu hnext
      exact .pure hu hnext (hjoin q last qs j k u hu hnext.1 hnext.2)
    · rw [if_neg hsep]
      exact .pure hu ⟨hafter, hsep⟩ rfl

/-- Two levels that are the same as far as the next token can tell. This is how a chain that has
been read up to its last operand is replaced by the joined operand. -/
theorem runFrom_complete {q q' : Query} {level level' : Level} (ht : p.stream[i]? = some t)
    (hclose : level.close q = level'.close q') (hsemicolon : t.token ≠ .semicolon)
    (hcomma : t.token = .comma →
      level.conjoin q = level'.conjoin q' ∧ level.alternatives = level'.alternatives) :
    p.runFrom ⟨.complete q, level, outer⟩ n i = p.runFrom ⟨.complete q', level', outer⟩ n i := by
  -- only a separator looks at the parts of a level, everything else at the whole
  apply runFrom_congr ht
  · intro _ k
    cases htoken : t.token <;> cases outer <;> simp_all [step, stepComplete]
  · rfl
  · intro _
    cases outer <;> simp [finish, finishComplete, hclose]

/-- Alternatives are a chain of chains. The inner one ends before a token that is no semicolon and
the outer one before one that is no comma either. -/
theorem follows_alternatives (hdepth : outer.length ≤ p.limits.depth) {operand : Reading Query}
    {low : Nat}
    (hoperand : ∀ level i n t, low ≤ i → p.stream[i]? = some t →
      Follows p ⟨.operand, level, outer⟩ i n (fun q => ⟨.complete q, level, outer⟩) anyToken
        (operand ⟨i, n⟩))
    (hlow : low ≤ i) (ht : p.stream[i]? = some t) (hrounds : p.tokens.length < low + rounds) :
    Follows p ⟨.operand, .empty, outer⟩ i n (fun q => ⟨.complete q, .empty, outer⟩)
      (fun u => (anyToken u ∧ u ≠ .semicolon) ∧ u ≠ .comma)
      (alternatives p.stream operand rounds ⟨i, n⟩) := by
  -- the chain of factors of one alternative, with the alternatives before it in the level
  have hfactors : ∀ qs i n t, low ≤ i → p.stream[i]? = some t →
      Follows p ⟨.operand, ⟨qs, []⟩, outer⟩ i n (fun q => ⟨.complete q, ⟨qs, []⟩, outer⟩)
        (fun u => anyToken u ∧ u ≠ .semicolon)
        (chain p.stream .semicolon .and operand rounds ⟨i, n⟩) := by
    intro qs i n t hlow ht
    apply follows_chain (Level.mk qs) hdepth (fun factors => hoperand ⟨qs, factors⟩) _ _ []
      hlow ht (by omega)
    · intro q factors t ht
      exact .factor rfl ht
    · intro q last factors i n t ht _ hne
      exact runFrom_complete ht rfl hne fun _ => ⟨rfl, rfl⟩
  apply follows_chain (Level.mk · []) hdepth hfactors _ _ [] hlow ht (by omega)
  · intro q qs t ht
    exact .alternative rfl ht
  · intro q last qs i n t ht hafter hne
    exact runFrom_complete ht rfl hafter.2 fun h => absurd h hne

/-- A group is read behind its parenthesis one level deeper, and the level around it is taken up
again when it is closed. -/
theorem follows_group {operand : Reading Query}
    (hdepth : ((t.offset, level) :: outer).length ≤ p.limits.depth) (ht : p.stream[i]? = some t)
    (htoken : t.token = .openParen)
    (hoperand : ∀ inner j k u, i + 1 ≤ j → p.stream[j]? = some u →
      Follows p ⟨.operand, inner, (t.offset, level) :: outer⟩ j k
        (fun q => ⟨.complete q, inner, (t.offset, level) :: outer⟩) anyToken (operand ⟨j, k⟩))
    (hrounds : p.tokens.length < i + 1 + rounds) :
    Follows p ⟨.operand, level, outer⟩ i n (fun q => ⟨.complete q, level, outer⟩) anyToken
      (group p.stream operand rounds t.offset ⟨i, n⟩) := by
  unfold group
  apply Follows.advance ht (.openGroup htoken) (by simp [startsTerm, htoken]) hdepth
  intro u hu
  apply (follows_alternatives hdepth hoperand (Nat.le_refl (i + 1)) hu hrounds).bind
  intro q j k v hj hv hafter
  rw [current_bind hv]
  cases hclose : v.token with
  | closeParen =>
    apply Follows.advance hv (.closeGroup rfl hclose) rfl (Nat.le_of_succ_le hdepth)
    intro w hw
    exact .pure hw trivial rfl
  | endOfInput =>
    exact .refuse hv (fun hne => absurd hclose hne) (fun _ => rfl) rfl (fun _ => rfl)
  -- the alternatives have ended, so no separator can follow them
  | comma => exact absurd hclose hafter.2
  | semicolon => exact absurd hclose hafter.1.2
  | _ =>
    exact .refuse hv (fun _ => by simp [step, stepComplete, hclose])
      (fun hend => by simp [hclose] at hend) rfl (fun _ => rfl)

/-- The induction is on the rounds; a group is read with one round less, behind its parenthesis, and
the levels around it are the nesting. -/
theorem follows_operand (hdepth : outer.length ≤ p.limits.depth) (ht : p.stream[i]? = some t)
    (hrounds : p.tokens.length < i + rounds) :
    Follows p ⟨.operand, level, outer⟩ i n (fun q => ⟨.complete q, level, outer⟩) anyToken
      (operand p.stream p.limits rounds outer.length ⟨i, n⟩) := by
  induction rounds generalizing level outer i n t with
  | zero =>
    have := le_of_stream ht
    omega
  | succ rounds ih =>
    rw [operand, if_neg (Nat.not_lt.2 hdepth), current_bind ht]
    cases htoken : t.token with
    | openParen =>
      -- the limit on nesting is tested before the parenthesis is taken
      by_cases hroom : p.limits.depth < outer.length + 1
      · simp only [if_pos hroom]
        exact .refuse ht (fun _ => by simp [step, stepOperand, htoken, hroom])
          (fun hend => by simp [htoken] at hend) (by simp [startsTerm, htoken]) (fun _ => rfl)
      · simp only [if_neg hroom]
        exact follows_group (Nat.not_lt.1 hroom) ht htoken
          (fun inner j k u hj hu => ih (Nat.not_lt.1 hroom) hu (by omega)) (by omega)
    | word text =>
      simp only [countTerm_bind]
      by_cases hroom : p.limits.terms < n + 1
      · rw [if_pos hroom]
        have hne : t.token ≠ .endOfInput := by simp [htoken]
        -- the constraint is counted by both, although it is not read
        apply Follows.failed (Nat.le_refl i) (le_of_stream ht)
        rw [(exists_next ht hne).1]
        exact runFrom_of_refused ht hne (by simp [startsTerm, htoken])
          (by simp [step, stepOperand, htoken, hroom])
      · rw [if_neg hroom]
        exact follows_constraint hdepth ht htoken (Nat.not_lt.1 hroom) hrounds
    | _ =>
      exact .refuse ht (fun _ => by simp [step, stepOperand, htoken])
        (fun hend => by simp_all [finish, unexpected]) (by simp [startsTerm, htoken])
        (fun _ => rfl)

/-- The result of a reading that stops for no other reason than an error. -/
def answer (result : Except SyntaxError Query) : Except Stop Query := result.mapError .error

/-- Behind a complete query, the reading and the machine decide alike: the end of input has to be
there, and it has to be the last token of the stream. -/
theorem closing_eq_run {q : Query} (ht : p.stream[i]? = some t) (hsemicolon : t.token ≠ .semicolon)
    (hcomma : t.token ≠ .comma) :
    ∃ result, p.runFrom ⟨.complete q, .empty, []⟩ n i = (result, p.tokens.drop i, n) ∧
      closing p.stream q ⟨i, n⟩ = (answer result, ⟨i, n⟩) := by
  rw [closing, current_bind ht]
  by_cases hend : t.token = .endOfInput
  · rw [if_pos hend]
    show ∃ result, _ ∧ (match p.stream[i + 1]? with
      | some trailing => fail (unexpected trailing)
      | none => Pure.pure q : Reading Query) ⟨i, n⟩ = (answer result, ⟨i, n⟩)
    unfold runFrom
    -- an end of input that is not the closing one has a token behind it
    rcases drop_of_stream ht with ⟨hlt, hdrop⟩ | ⟨hge, hdrop, -⟩
    · rw [getElem?_stream hlt, hdrop, run, if_pos hend]
      exact ⟨.error (unexpected (firstOf (p.tokens.drop (i + 1)) p.endOffset)), rfl, rfl⟩
    · have hnone : p.stream[i + 1]? = none := by
        rw [List.getElem?_eq_none_iff, length_stream]
        omega
      rw [hnone, hdrop]
      exact ⟨.ok q, rfl, rfl⟩
  · rw [if_neg hend]
    have hstep : (⟨.complete q, .empty, []⟩ : Machine).step p.limits n t =
        .error (unexpected t) := by
      cases htoken : t.token <;> simp_all [step, stepComplete]
    refine ⟨.error (unexpected t), ?_, rfl⟩
    rw [(exists_next ht hend).1]
    exact runFrom_of_refused ht hend rfl hstep

/-- **The reading and the parser.** With as many rounds as there are tokens, the reading from any
place of the stream does what the parser does from there: it gives the same result, and stops at the
same token with the same count. -/
theorem parse_eq_run (hi : i ≤ p.tokens.length) (hrounds : p.tokens.length < rounds) :
    parse p.stream p.limits rounds ⟨i, n⟩ =
      (answer (p.runFrom .start n i).1,
        ⟨p.tokens.length - (p.runFrom .start n i).2.1.length, (p.runFrom .start n i).2.2⟩) := by
  have hread : Follows p .start i n (fun q => ⟨.complete q, .empty, []⟩)
      (fun u => (anyToken u ∧ u ≠ .semicolon) ∧ u ≠ .comma)
      (alternatives p.stream (operand p.stream p.limits rounds 0) rounds ⟨i, n⟩) :=
    follows_alternatives (Nat.zero_le _)
      (fun level j k t _ ht => follows_operand (Nat.zero_le _) ht (by omega)) (Nat.zero_le i)
      (getElem?_stream hi) (by omega)
  have hindex {j : Nat} (hj : j ≤ p.tokens.length) :
      p.tokens.length - (p.tokens.drop j).length = j := by
    rw [List.length_drop]
    omega
  -- the query is followed up to its end, and what comes behind it is decided by `closing`
  unfold parse
  generalize hout : alternatives p.stream (operand p.stream p.limits rounds 0) rounds ⟨i, n⟩ = out
    at hread
  cases hread with
  | failed hle hj hrun =>
    rw [bind_of_error hout, hrun, hindex hj]
    rfl
  | done hle ht hafter hrun =>
    obtain ⟨result, hclosing, hread⟩ := closing_eq_run ht hafter.1.2 hafter.2
    rw [bind_of_ok hout, hread, hrun, hclosing, hindex (le_of_stream ht)]

end

end Descent
end FilterQuery
