import FilterQuery.Proofs.Query.Machine

/-!
# The parser reads the grammar

The parser accepts exactly the token sequences that the grammar derives and returns the tree of the
derivation.

* Soundness. The state of the machine is a record of what has been read: `Machine.Spells m ts` says
  that `ts` consists of the chains and open groups that `m` keeps, followed by what its mode stands
  for. Every move keeps this up (`Spells.move`), and when the machine ends with a query, the record
  is a derivation of it (`derives_of_finish`).
* Completeness. A phrase takes the machine to a state that has read it, whatever stood around it
  (`exists_reaches_of_derives`, by induction on the derivation). The limits enter here only through
  the depth of the groups and the number of constraints.

Main statement: `Parser.parse_eq_ok_iff_derives`.
-/

namespace FilterQuery

open Grammar

/-! ## Chains that are still open -/

namespace Grammar

/-- Complete operands of a chain, the latest first, and the tokens they were read from, each operand
with its separator behind it. -/
inductive Chain (rank : Rank) (separator : Token) : List Query → List Token → Prop where
  | nil : Chain rank separator [] []
  | snoc {qs : List Query} {ts us : List Token} {q : Query} (hqs : Chain rank separator qs ts)
      (hq : Derives rank us q) : Chain rank separator (q :: qs) (ts ++ us ++ [separator])

/-- A chain with its last operand is a phrase, if one operand in front of a phrase makes one. It is
used twice: factors are joined by "and" and alternatives by "or". -/
theorem Chain.derives {rank rank' : Rank} {separator : Token} {join : Query → Query → Query}
    (hjoin : ∀ {us vs l r}, Derives rank us l → Derives rank' vs r →
      Derives rank' (us ++ separator :: vs) (join l r))
    {qs : List Query} {ts : List Token} (h : Chain rank separator qs ts) {us : List Token}
    {last : Query} (hlast : Derives rank' us last) :
    Derives rank' (ts ++ us) (qs.foldl (fun q operand => join operand q) last) := by
  induction h generalizing us last with
  | nil => exact hlast
  -- the latest operand is joined first, so it becomes a part of the phrase that ends the chain
  | snoc _ hq ih =>
    rw [List.append_assoc, List.append_assoc, List.foldl_cons]
    exact ih (hjoin hq hlast)

/-- A list of values goes on with a comma and one more value. The rules of `Items` put values in
front, and the machine reads them from the front to the back. -/
theorem Items.snoc {ts : List Token} {vs : List Literal} (h : Items ts vs) {t : Token}
    {v : Literal} (hv : Scalar t v) : Items (ts ++ [.comma, t]) (vs ++ [v]) := by
  induction h with
  | last hu => exact .more hu (.last hv)
  | more hu _ ih => exact .more hu ih

end Grammar

/-! ## The machine as a record of what it has read -/

/-- The tokens are the open chains of a level: its alternatives, then the factors of the next
one. -/
def Level.Spells (level : Level) (ts : List Token) : Prop :=
  ∃ us vs, ts = us ++ vs ∧ Chain .factors .comma level.alternatives us ∧
    Chain .operand .semicolon level.factors vs

theorem Level.spells_empty : Level.empty.Spells [] := ⟨[], [], rfl, .nil, .nil⟩

/-- A level with one more factor, which a semicolon has made of the last operand. -/
theorem Level.Spells.factor {level : Level} {ts us : List Token} {q : Query}
    (h : level.Spells ts) (hq : Derives .operand us q) :
    Level.Spells ⟨level.alternatives, q :: level.factors⟩ (ts ++ us ++ [.semicolon]) := by
  obtain ⟨as, fs, rfl, has, hfs⟩ := h
  refine ⟨as, fs ++ us ++ [.semicolon], ?_, has, hfs.snoc hq⟩
  simp only [List.append_assoc]

/-- A level with one more alternative, made from its factors and a last one. The comma closes the
chain of factors, which becomes one operand of the outer chain. -/
theorem Level.Spells.alternative {level : Level} {ts us : List Token} {q : Query}
    (h : level.Spells ts) (hq : Derives .operand us q) :
    Level.Spells ⟨level.conjoin q :: level.alternatives, []⟩ (ts ++ us ++ [.comma]) := by
  obtain ⟨as, fs, rfl, has, hfs⟩ := h
  have hfactors : Derives .factors (fs ++ us) (level.conjoin q) := hfs.derives .and (.factor hq)
  refine ⟨as ++ (fs ++ us) ++ [.comma], [], ?_, has.snoc hfactors, .nil⟩
  simp only [List.append_assoc, List.append_nil]

/-- A level that is closed by a last operand. This happens at the parenthesis that closes a group,
and at the end of input. -/
theorem Level.Spells.close {level : Level} {ts us : List Token} {q : Query}
    (h : level.Spells ts) (hq : Derives .operand us q) :
    Derives .alternatives (ts ++ us) (level.close q) := by
  obtain ⟨as, fs, rfl, has, hfs⟩ := h
  have hfactors : Derives .factors (fs ++ us) (level.conjoin q) := hfs.derives .and (.factor hq)
  rw [List.append_assoc]
  exact has.derives .or (.alternative hfactors)

/-- The tokens are what has been read of the current operand. -/
inductive Mode.Spells : Mode → List Token → Prop where
  | operand : Spells .operand []
  | selector {w s} (hs : Selector.ofPath? w = some s) : Spells (.selector s) [.word w]
  | value {w s op} (hs : Selector.ofPath? w = some s) :
      Spells (.value s op) [.word w, .equality op]
  | scalar {w s name} (hs : Selector.ofPath? w = some s) :
      Spells (.scalar s (.ofName name)) [.word w, .comparison name]
  | firstItem {w s op opened} (hs : Selector.ofPath? w = some s) :
      Spells (.item s op opened []) [.word w, .equality op, .openParen]
  | nextItem {w s op opened items ts} (hs : Selector.ofPath? w = some s)
      (hitems : Items ts items.reverse) :
      Spells (.item s op opened items)
        (.word w :: .equality op :: .openParen :: (ts ++ [.comma]))
  | items {w s op opened items ts} (hs : Selector.ofPath? w = some s)
      (hitems : Items ts items.reverse) :
      Spells (.items s op opened items) (.word w :: .equality op :: .openParen :: ts)
  | complete {q ts} (hq : Derives .operand ts q) : Spells (.complete q) ts

theorem Mode.Spells.derives {mode : Mode} {ts : List Token} {q : Query} (h : mode.Spells ts)
    (hq : mode.completed? = some q) : Derives .operand ts q := by
  cases h with
  | selector hs => cases hq; exact .constraint (.present hs)
  | complete hd => cases hq; exact hd
  | _ => cases hq

/-- The tokens are the open chains of the levels around the innermost one, each with the parenthesis
that was opened in it. -/
inductive OuterSpells : List (Nat × Level) → List Token → Prop where
  | nil : OuterSpells [] []
  | snoc {outer : List (Nat × Level)} {level : Level} {opened : Nat} {ts us : List Token}
      (houter : OuterSpells outer ts) (hlevel : level.Spells us) :
      OuterSpells ((opened, level) :: outer) (ts ++ us ++ [.openParen])

namespace Machine

/-- The tokens are what the machine has read. -/
def Spells (m : Machine) (ts : List Token) : Prop :=
  ∃ us vs ws, ts = us ++ vs ++ ws ∧ OuterSpells m.outer us ∧ m.level.Spells vs ∧ m.mode.Spells ws

theorem spells_start : start.Spells [] := ⟨[], [], [], rfl, .nil, Level.spells_empty, .operand⟩

/-- A move within the current operand changes only the mode and its part of the record. So for most
rules only the mode has to be looked at. -/
theorem spells_enter {mode mode' : Mode} {level : Level} {outer : List (Nat × Level)}
    {ts : List Token} {t : Token} (h : Spells ⟨mode, level, outer⟩ ts)
    (hmode : ∀ ws, mode.Spells ws → mode'.Spells (ws ++ [t])) :
    Spells ⟨mode', level, outer⟩ (ts ++ [t]) := by
  obtain ⟨us, vs, ws, rfl, houter, hlevel, hws⟩ := h
  exact ⟨us, vs, ws ++ [t], by simp only [List.append_assoc], houter, hlevel, hmode ws hws⟩

/-- Every move adds its token to the record. The record has three parts: the levels around, the
current level and the current operand. -/
theorem Spells.move {m m' : Machine} {t : PlacedToken} {ts : List Token} (h : m.Spells ts)
    (hmove : Moves m t m') : m'.Spells (ts ++ [t.token]) := by
  cases hmove with
  | openGroup ht =>
    obtain ⟨us, vs, ws, rfl, houter, hlevel, hws⟩ := h
    cases hws
    refine ⟨us ++ vs ++ [.openParen], [], [], ?_, houter.snoc hlevel, Level.spells_empty, .operand⟩
    simp only [ht, List.append_nil]
  -- up to the end of an operand, only the mode changes
  | selector ht hs =>
    refine spells_enter h fun ws hws => ?_
    cases hws
    rw [ht]
    exact .selector hs
  | equality ht =>
    refine spells_enter h fun ws hws => ?_
    cases hws with | selector hs => rw [ht]; exact .value hs
  | comparison ht =>
    refine spells_enter h fun ws hws => ?_
    cases hws with | selector hs => rw [ht]; exact .scalar hs
  | value ht =>
    refine spells_enter h fun ws hws => ?_
    cases hws with | value hs => exact .complete (.constraint (.equality _ hs (.scalar ht)))
  | openList ht =>
    refine spells_enter h fun ws hws => ?_
    cases hws with | value hs => rw [ht]; exact .firstItem hs
  | scalar ht =>
    refine spells_enter h fun ws hws => ?_
    cases hws with | scalar hs => exact .complete (.constraint (.comparison _ hs ht))
  | item ht =>
    refine spells_enter h fun ws hws => ?_
    cases hws with
    | firstItem hs => exact .items hs (.last ht)
    | nextItem hs hitems =>
      simp only [List.cons_append, List.append_assoc]
      refine .items hs ?_
      rw [List.reverse_cons]
      exact hitems.snoc ht
  | nextItem ht =>
    refine spells_enter h fun ws hws => ?_
    cases hws with | items hs hitems => rw [ht]; exact .nextItem hs hitems
  | closeList ht =>
    refine spells_enter h fun ws hws => ?_
    cases hws with
    | items hs hitems => rw [ht]; exact .complete (.constraint (.equality _ hs (.list hitems)))
  | factor hq ht =>
    obtain ⟨us, vs, ws, rfl, houter, hlevel, hws⟩ := h
    refine ⟨us, vs ++ ws ++ [.semicolon], [], ?_, houter, hlevel.factor (hws.derives hq), .operand⟩
    simp only [ht, List.append_assoc, List.append_nil]
  | alternative hq ht =>
    obtain ⟨us, vs, ws, rfl, houter, hlevel, hws⟩ := h
    refine ⟨us, vs ++ ws ++ [.comma], [], ?_, houter, hlevel.alternative (hws.derives hq), .operand⟩
    simp only [ht, List.append_assoc, List.append_nil]
  | closeGroup hq ht =>
    -- the innermost level becomes a group, and the one around it is current again
    obtain ⟨us, vs, ws, rfl, houter, hlevel, hws⟩ := h
    cases houter with
    | @snoc _ _ _ us us' houter hlevel' =>
      refine ⟨us, us', .openParen :: ((vs ++ ws) ++ [.closeParen]), ?_, houter, hlevel',
        .complete (.group (hlevel.close (hws.derives hq)))⟩
      simp only [ht, List.append_assoc, List.cons_append, List.nil_append]

/-- A whole run adds its tokens to the record, one move after another. -/
theorem Spells.reaches {depth n : Nat} {m m' : Machine} {us : List PlacedToken} {ts : List Token}
    (h : m.Spells ts) (hreach : Reaches depth m us n m') :
    m'.Spells (ts ++ us.map PlacedToken.token) := by
  induction hreach generalizing ts with
  | refl _ => simpa using h
  | step hmove _ _ ih =>
    have := ih (h.move hmove)
    rwa [List.append_assoc] at this

/-- A machine that ends with a query has read a derivation of it. Nothing is open then, so the
record is the innermost level with its last operand. -/
theorem derives_of_finish {m : Machine} {endOffset : Nat} {q : Query} {ts : List Token}
    (h : m.Spells ts) (hfinish : m.finish endOffset = .ok q) : Derives .alternatives ts q := by
  obtain ⟨mode, level, outer⟩ := m
  obtain ⟨us, vs, ws, rfl, houter, hlevel, hws⟩ := h
  -- only a complete operand can be the end, and only with no group open
  have hlast : ∃ last, mode.completed? = some last ∧
      finishComplete ⟨mode, level, outer⟩ last = .ok q := by
    cases mode with
    | selector s => exact ⟨.present s, rfl, hfinish⟩
    | complete last => exact ⟨last, rfl, hfinish⟩
    | _ => cases hfinish
  obtain ⟨last, hcomplete, hlast⟩ := hlast
  cases houter with
  | nil =>
    cases hlast
    exact hlevel.close (hws.derives hcomplete)
  | snoc _ _ => cases hlast

/-! ## A phrase is read -/

theorem startsTerm_of_completed {mode : Mode} {q : Query} (hq : mode.completed? = some q)
    (level : Level) (outer : List (Nat × Level)) (t : PlacedToken) :
    startsTerm ⟨mode, level, outer⟩ t = false := by
  cases mode with
  | operand => cases hq
  | _ => rfl

/-- The machine has read a phrase that started at the given level, inside the given groups. For a
chain it has its last operand at hand, and closing the level with this operand is the same as
closing the old one with the whole phrase. -/
def HasRead (level : Level) (outer : List (Nat × Level)) (q : Query) : Rank → Machine → Prop
  | .operand, m => ∃ mode, m = ⟨mode, level, outer⟩ ∧ mode.completed? = some q
  | .factors, m => ∃ mode inner last, m = ⟨mode, inner, outer⟩ ∧ mode.completed? = some last ∧
      inner.alternatives = level.alternatives ∧ inner.conjoin last = level.conjoin q
  | .alternatives, m => ∃ mode inner last, m = ⟨mode, inner, outer⟩ ∧
      mode.completed? = some last ∧ (level.factors = [] → inner.close last = level.close q)

/-- The values of a list are read one after another and are kept in reverse. None of them starts a
constraint. -/
theorem reaches_of_items {ts : List Token} {vs : List Literal} (h : Items ts vs)
    {placed : List PlacedToken} (hplaced : placed.map PlacedToken.token = ts) {depth opened : Nat}
    {s : Selector} {op : Equality} {level : Level} {outer : List (Nat × Level)}
    (hdepth : outer.length ≤ depth) (items : List Literal) :
    Reaches depth ⟨.item s op opened items, level, outer⟩ placed 0
      ⟨.items s op opened (vs.reverse ++ items), level, outer⟩ := by
  induction h generalizing placed items with
  | last hv =>
    obtain ⟨t, rfl, rfl⟩ := List.map_eq_singleton_iff.1 hplaced
    exact .single (.item hv) rfl hdepth
  | @more _ v _ vs hv _ ih =>
    obtain ⟨t, rest, rfl, rfl, hrest⟩ := List.map_eq_cons_iff.1 hplaced
    obtain ⟨c, placed, rfl, hc, hplaced⟩ := List.map_eq_cons_iff.1 hrest
    have hitem : Reaches depth ⟨.item s op opened items, level, outer⟩ [t] 0
        ⟨.items s op opened (v :: items), level, outer⟩ := .single (.item hv) rfl hdepth
    have hcomma : Reaches depth ⟨.items s op opened (v :: items), level, outer⟩ [c] 0
        ⟨.item s op opened (v :: items), level, outer⟩ := .single (.nextItem hc) rfl hdepth
    rw [List.reverse_cons, List.append_assoc]
    exact (hitem.trans hcomma).trans (ih hplaced (v :: items))

/-- A constraint is read from its first word, which counts as one constraint, to a complete
operand. -/
theorem exists_reaches_of_constraint {ts : List Token} {q : Query} (h : Constraint ts q)
    {placed : List PlacedToken} (hplaced : placed.map PlacedToken.token = ts) {depth : Nat}
    {level : Level} {outer : List (Nat × Level)} (hdepth : outer.length ≤ depth) :
    ∃ m, Reaches depth ⟨.operand, level, outer⟩ placed 1 m ∧ HasRead level outer q .operand m ∧
      q.selectors.length = 1 := by
  -- the first word
  have hword {t : PlacedToken} {w : String} {s : Selector} (ht : t.token = .word w)
      (hs : Selector.ofPath? w = some s) :
      Reaches depth ⟨.operand, level, outer⟩ [t] 1 ⟨.selector s, level, outer⟩ := by
    have := Reaches.step (.selector ht hs) hdepth (.refl ⟨.selector s, level, outer⟩)
    simpa [startsTerm, ht] using this
  cases h with
  | present hs =>
    obtain ⟨t, rfl, ht⟩ := List.map_eq_singleton_iff.1 hplaced
    exact ⟨_, hword ht hs, ⟨_, rfl, rfl⟩, rfl⟩
  | equality op hs hv =>
    obtain ⟨t, placed, rfl, ht, hplaced⟩ := List.map_eq_cons_iff.1 hplaced
    obtain ⟨o, placed, rfl, ho, hplaced⟩ := List.map_eq_cons_iff.1 hplaced
    have hop := (hword ht hs).trans (.single (.equality ho) rfl hdepth)
    cases hv with
    | scalar hv =>
      obtain ⟨u, rfl, rfl⟩ := List.map_eq_singleton_iff.1 hplaced
      exact ⟨_, hop.trans (.single (.value hv) rfl hdepth), ⟨_, rfl, rfl⟩, rfl⟩
    | list hvs =>
      obtain ⟨p, placed, rfl, hp, hplaced⟩ := List.map_eq_cons_iff.1 hplaced
      obtain ⟨items, close, rfl, hitems, hclose⟩ := List.map_eq_append_iff.1 hplaced
      obtain ⟨c, rfl, hc⟩ := List.map_eq_singleton_iff.1 hclose
      have hopen := hop.trans (.single (.openList hp) rfl hdepth)
      have hlist := hopen.trans (reaches_of_items hvs hitems hdepth [])
      refine ⟨_, hlist.trans (.single (.closeList hc) rfl hdepth), ⟨_, rfl, ?_⟩, rfl⟩
      simp [Mode.completed?]
  | comparison name hs hv =>
    obtain ⟨t, placed, rfl, ht, hplaced⟩ := List.map_eq_cons_iff.1 hplaced
    obtain ⟨o, placed, rfl, ho, hplaced⟩ := List.map_eq_cons_iff.1 hplaced
    obtain ⟨u, rfl, rfl⟩ := List.map_eq_singleton_iff.1 hplaced
    have hop := (hword ht hs).trans (.single (.comparison ho) rfl hdepth)
    exact ⟨_, hop.trans (.single (.scalar hv) rfl hdepth), ⟨_, rfl, rfl⟩, rfl⟩

/-- **Completeness of the machine.** A phrase is read wherever an operand may start, with as many
constraints as its tree has, and with as many more groups open as it is deep. -/
theorem exists_reaches_of_derives {rank : Rank} {ts : List Token} {q : Query}
    (h : Derives rank ts q) {placed : List PlacedToken}
    (hplaced : placed.map PlacedToken.token = ts) {depth : Nat} (level : Level)
    (outer : List (Nat × Level)) (hdepth : outer.length + groupDepth ts ≤ depth) :
    ∃ m, Reaches depth ⟨.operand, level, outer⟩ placed q.selectors.length m ∧
      HasRead level outer q rank m := by
  induction h generalizing placed level outer with
  -- along the derivation; each join puts what is read on its left into the level, and reads its
  -- right from there
  | alternative _ ih =>
    obtain ⟨_, hreach, mode, inner, last, rfl, hlast, halts, hjoin⟩ := ih hplaced level outer hdepth
    refine ⟨_, hreach, mode, inner, last, rfl, hlast, fun _ => ?_⟩
    rw [Level.close, halts, hjoin, Level.close]
  | @or ts us l r hl _ ihl ihr =>
    rw [groupDepth_append hl (.inl rfl)] at hdepth
    obtain ⟨left, rest, rfl, hleft, hrest⟩ := List.map_eq_append_iff.1 hplaced
    obtain ⟨c, right, rfl, hc, hright⟩ := List.map_eq_cons_iff.1 hrest
    obtain ⟨_, hl, mode, inner, last, rfl, hlast, halts, hjoin⟩ :=
      ihl hleft level outer (by omega)
    -- the comma makes the left operand an alternative of the level
    have hcomma : Reaches depth ⟨mode, inner, outer⟩ [c] 0
        ⟨.operand, ⟨level.conjoin l :: level.alternatives, []⟩, outer⟩ := by
      rw [← hjoin, ← halts]
      exact .single (.alternative hlast hc) (startsTerm_of_completed hlast _ _ c)
        (by simp only; omega)
    obtain ⟨_, hr, mode', inner', last', rfl, hlast', hclose⟩ :=
      ihr hright ⟨level.conjoin l :: level.alternatives, []⟩ outer (by omega)
    refine ⟨_, ?_, mode', inner', last', rfl, hlast', fun hfactors => ?_⟩
    · simpa [Query.selectors] using hl.trans (hcomma.trans hr)
    · rw [hclose rfl]
      simp [Level.close, Level.conjoin, hfactors]
  | factor _ ih =>
    obtain ⟨_, hreach, mode, rfl, hlast⟩ := ih hplaced level outer hdepth
    exact ⟨_, hreach, mode, level, _, rfl, hlast, rfl, rfl⟩
  | @and ts us l r hl _ ihl ihr =>
    rw [groupDepth_append hl (.inr rfl)] at hdepth
    obtain ⟨left, rest, rfl, hleft, hrest⟩ := List.map_eq_append_iff.1 hplaced
    obtain ⟨c, right, rfl, hc, hright⟩ := List.map_eq_cons_iff.1 hrest
    obtain ⟨_, hl, mode, rfl, hlast⟩ := ihl hleft level outer (by omega)
    -- the semicolon makes it a factor of the level
    have hsemicolon : Reaches depth ⟨mode, level, outer⟩ [c] 0
        ⟨.operand, ⟨level.alternatives, l :: level.factors⟩, outer⟩ :=
      .single (.factor hlast hc) (startsTerm_of_completed hlast _ _ c) (by simp only; omega)
    obtain ⟨_, hr, mode', inner', last', rfl, hlast', halts, hjoin⟩ :=
      ihr hright ⟨level.alternatives, l :: level.factors⟩ outer (by omega)
    refine ⟨_, ?_, mode', inner', last', rfl, hlast', halts, hjoin⟩
    simpa [Query.selectors] using hl.trans (hsemicolon.trans hr)
  | group hq ih =>
    rw [groupDepth_group hq] at hdepth
    obtain ⟨o, rest, rfl, ho, hrest⟩ := List.map_eq_cons_iff.1 hplaced
    obtain ⟨inside, close, rfl, hinside, hclose⟩ := List.map_eq_append_iff.1 hrest
    obtain ⟨c, rfl, hc⟩ := List.map_eq_singleton_iff.1 hclose
    -- the inside is read at an empty level, with the old one among the groups around it
    have hopen : Reaches depth ⟨.operand, level, outer⟩ [o] 0
        ⟨.operand, .empty, (o.offset, level) :: outer⟩ :=
      .single (.openGroup ho) (by simp [startsTerm, ho]) (by simp only [List.length_cons]; omega)
    obtain ⟨_, hreach, mode, inner, last, rfl, hlast, hjoin⟩ :=
      ih hinside .empty ((o.offset, level) :: outer) (by simp only [List.length_cons]; omega)
    have hend : Reaches depth ⟨mode, inner, (o.offset, level) :: outer⟩ [c] 0
        ⟨.complete (inner.close last), level, outer⟩ :=
      .single (.closeGroup hlast hc) (startsTerm_of_completed hlast _ _ c) (by simp only; omega)
    -- the group was read at an empty level, so closing it gives the inside as it is
    have hempty (q : Query) : Level.empty.close q = q := rfl
    rw [hjoin rfl, hempty] at hend
    refine ⟨_, ?_, .complete _, rfl, rfl⟩
    simpa using hopen.trans (hreach.trans hend)
  | constraint hq =>
    have houter : outer.length ≤ depth := by omega
    obtain ⟨m, hreach, hread, hone⟩ := exists_reaches_of_constraint hq hplaced houter
    exact ⟨m, hone ▸ hreach, hread⟩

/-- **Soundness of the machine.** What a run from the start reads and ends with has a derivation. -/
theorem derives_of_reaches {depth n endOffset : Nat} {m : Machine} {ts : List PlacedToken}
    {q : Query} (h : Reaches depth start ts n m) (hfinish : m.finish endOffset = .ok q) :
    Derives .alternatives (ts.map PlacedToken.token) q :=
  derives_of_finish (spells_start.reaches h) hfinish

end Machine

/-! ## The parser -/

namespace Parser

/-- The result of the parser is that of a run from the start, over all tokens but the closing end of
input. -/
theorem parse_ofTokens (ts : List PlacedToken) (endOffset : Nat) (limits : Limits) :
    (ofTokens (ts ++ [⟨.endOfInput, endOffset⟩]) limits).parse.1 =
      (run limits endOffset .start 0 ts).1 := by
  simp [ofTokens, parse]

/-- The tokens of a derivation are accepted if the limits admit its groups and its constraints. The
other direction holds under all limits, so the parser finds at most the queries that the grammar
has. -/
theorem parse_of_derives {ts : List PlacedToken} {limits : Limits} {q : Query}
    (h : Derives .alternatives (ts.map PlacedToken.token) q) (endOffset : Nat)
    (hdepth : groupDepth (ts.map PlacedToken.token) ≤ limits.depth)
    (hterms : q.selectors.length ≤ limits.terms) :
    (ofTokens (ts ++ [⟨.endOfInput, endOffset⟩]) limits).parse.1 = .ok q := by
  obtain ⟨_, hreach, mode, level, last, rfl, hlast, hclose⟩ :=
    Machine.exists_reaches_of_derives h rfl .empty [] (by simpa using hdepth)
  -- no group is open at the end, so the level is closed with its last operand
  have hfinish : Machine.finish ⟨mode, level, []⟩ endOffset = .ok (level.close last) := by
    cases mode <;> cases hlast <;> rfl
  rw [parse_ofTokens, Machine.start, run_of_reaches hreach (by omega), hfinish, hclose rfl]
  rfl

/-- What is accepted has a derivation, whatever the limits are. Limits can only refuse: they do not
change what is accepted into something else. -/
theorem derives_of_parse {ts : List PlacedToken} {endOffset : Nat} {limits : Limits} {q : Query}
    (h : (ofTokens (ts ++ [⟨.endOfInput, endOffset⟩]) limits).parse.1 = .ok q) :
    Derives .alternatives (ts.map PlacedToken.token) q := by
  rw [parse_ofTokens] at h
  obtain ⟨n, m, hreach, -, hfinish⟩ := exists_reaches_of_run (Nat.zero_le _) h
  exact Machine.derives_of_reaches hreach hfinish

/-- **The parser reads exactly the grammar.** With limits that the number of tokens cannot exceed,
the parser returns a query exactly if the tokens derive it. So the tokens derive at most one
query. -/
theorem parse_eq_ok_iff_derives (ts : List PlacedToken) (endOffset : Nat) (limits : Limits)
    (hdepth : ts.length ≤ limits.depth) (hterms : ts.length ≤ limits.terms) :
    (∀ q, (ofTokens (ts ++ [⟨.endOfInput, endOffset⟩]) limits).parse.1 = .ok q ↔
      Derives .alternatives (ts.map PlacedToken.token) q) ∧
    ∀ q r, Derives .alternatives (ts.map PlacedToken.token) q →
      Derives .alternatives (ts.map PlacedToken.token) r → q = r := by
  have accepts : ∀ q, Derives .alternatives (ts.map PlacedToken.token) q →
      (ofTokens (ts ++ [⟨.endOfInput, endOffset⟩]) limits).parse.1 = .ok q := by
    intro q hq
    have hgroups := groupDepth_le (ts.map PlacedToken.token)
    have hselectors := hq.length_selectors_le
    rw [List.length_map] at hgroups hselectors
    exact parse_of_derives hq endOffset (Nat.le_trans hgroups hdepth)
      (Nat.le_trans hselectors hterms)
  refine ⟨fun q => ⟨derives_of_parse, accepts q⟩, fun q r hq hr => ?_⟩
  have := (accepts q hq).symm.trans (accepts r hr)
  exact Except.ok.inj this

/-- The rules at work together: groups around alternatives and around a single constraint, a list
with its own comma, and a chain of both separators. -/
theorem parse_eq_ok_iff_derives_groups_and_lists :
    let ts : List PlacedToken := [⟨.openParen, 0⟩, ⟨.word "a", 1⟩, ⟨.comma, 2⟩, ⟨.word "b.c", 3⟩,
      ⟨.closeParen, 6⟩, ⟨.semicolon, 7⟩, ⟨.openParen, 8⟩, ⟨.word "d", 9⟩, ⟨.equality .notEqual, 10⟩,
      ⟨.openParen, 12⟩, ⟨.word "1", 13⟩, ⟨.comma, 14⟩, ⟨.quoted "1", 15⟩, ⟨.closeParen, 18⟩,
      ⟨.closeParen, 19⟩, ⟨.comma, 20⟩, ⟨.word "e", 21⟩, ⟨.comparison "ge", 22⟩, ⟨.word "x", 26⟩]
    ts.length ≤ 19 ∧ Derives .alternatives (ts.map PlacedToken.token)
      (.or (.and (.or (.present ⟨none, "a"⟩) (.present ⟨some "b", "c"⟩))
          (.equality ⟨none, "d"⟩ .notEqual (.list [.number (.integer 1), .text "1"])))
        (.comparison ⟨none, "e"⟩ (.bound .greaterOrEqual) (.text "x"))) := by
  refine ⟨by decide, ?_⟩
  refine ((parse_eq_ok_iff_derives _ 27 ⟨19, 19⟩ (by decide) (by decide)).1 _).1 ?_
  rfl

end Parser

end FilterQuery
