import Mathlib.Data.List.TakeWhile
import FilterQuery.Sql

/-!
# Reading the text of a statement

A statement is handed over as one text, so what it says is what a reader of the text finds in it.
The reader here knows only the lexical rules. A double quote opens an identifier, two of them inside
it stand for one, and a single one closes it. Outside of identifiers the text falls into single
signs and into runs: of letters, of the signs of a comparison, and of figures after a dollar sign.

* `flatMap_chars_of_scan`: the parts of a text, one after the other, are the text.
* `scan_append`: two texts side by side are read one after the other, unless the end of the first
  runs into the start of the second (`glues`).
-/

namespace FilterQuery.Sql

/-! ## The reader -/

/-- A part of the text of a statement. -/
inductive Piece where
  /-- A quoted identifier, without its quotes and with single quotes for doubled ones. -/
  | name (identifier : String)
  /-- A run of characters outside of identifiers. -/
  | bare (text : String)
deriving DecidableEq

/-- The characters of comparison signs. -/
def isRelation (c : Char) : Bool := c == '<' || c == '>' || c == '='

/-- Whether a run that starts with `c` goes on with `d`. -/
def joins (c d : Char) : Bool :=
  if c.isAlpha then d.isAlpha
  else if c = '$' then d.isDigit
  else isRelation c && isRelation d

/-- Reads an identifier after its opening quote: its characters, and the number of characters up to
and including the closing quote. -/
def readName? : List Char → Option (List Char × Nat)
  | [] => none
  | '"' :: '"' :: rest => (readName? rest).map fun (name, n) => ('"' :: name, n + 2)
  | '"' :: _ => some ([], 1)
  | c :: rest => (readName? rest).map fun (name, n) => (c :: name, n + 1)

/-- The parts of a text; there are none if it ends inside an identifier. -/
def scan : List Char → Option (List Piece)
  | [] => some []
  | c :: rest =>
    if c = '"' then
      match readName? rest with
      | some (name, n) => (scan (rest.drop n)).map (.name (String.ofList name) :: ·)
      | none => none
    else
      (scan (rest.dropWhile (joins c))).map
        (.bare (String.ofList (c :: rest.takeWhile (joins c))) :: ·)
termination_by cs => cs.length
decreasing_by
  · simp only [List.length_drop, List.length_cons]
    omega
  · have := List.length_dropWhile_le (joins c) rest
    simp only [List.length_cons]
    omega

/-- The text of a part. -/
def Piece.chars : Piece → List Char
  | name identifier => quoteName identifier
  | bare text => text.toList

/-- The characters that an identifier was read from are the identifier with its quotes doubled and
the closing one. -/
theorem readName?_take {cs name : List Char} {n : Nat} (h : readName? cs = some (name, n)) :
    cs.take n = name.flatMap quoteChar ++ ['"'] := by
  fun_induction readName? cs generalizing name n with
  | case1 => cases h
  | case2 rest ih =>
    obtain ⟨⟨name', n'⟩, hread, heq⟩ := Option.map_eq_some_iff.1 h
    cases heq
    rw [List.take_succ_cons, List.take_succ_cons, ih hread]
    rfl
  | case3 => cases h; rfl
  | case4 c rest _ hclose ih =>
    obtain ⟨⟨name', n'⟩, hread, heq⟩ := Option.map_eq_some_iff.1 h
    cases heq
    have hc : c ≠ '"' := fun hc => hclose hc
    rw [List.take_succ_cons, ih hread, List.flatMap_cons, show quoteChar c = [c] from if_neg hc]
    rfl

/-- Nothing of a text is lost when it is read. So the parts are really all of the text, and nothing
stands between them. -/
theorem flatMap_chars_of_scan {cs : List Char} {ps : List Piece} (h : scan cs = some ps) :
    ps.flatMap Piece.chars = cs := by
  fun_induction scan cs generalizing ps with
  | case1 => cases h; rfl
  -- an identifier: what was read of it and what was dropped behind it make up the rest
  | case2 cs name n hread ih =>
    obtain ⟨ps', hscan, rfl⟩ := Option.map_eq_some_iff.1 h
    have htake := readName?_take hread
    rw [List.flatMap_cons, ih hscan, Piece.chars, quoteName, String.toList_ofList, ← htake,
      List.cons_append, List.take_append_drop]
  | case3 => cases h
  | case4 c cs _ ih =>
    obtain ⟨ps', hscan, rfl⟩ := Option.map_eq_some_iff.1 h
    rw [List.flatMap_cons, ih hscan, Piece.chars, String.toList_ofList, List.cons_append,
      List.takeWhile_append_dropWhile]

/-! ## Texts side by side -/

/-- Whether a text that ends in `e` may run into one that starts with `d`. -/
def glues (e d : Char) : Bool :=
  e.isAlpha && d.isAlpha || (e == '$' || e.isDigit) && d.isDigit || isRelation e && isRelation d ||
    e == '"' && d == '"'

/-- A run that goes on past the end of a text has the last character of the text in it. So if the
last character does not run into the next text, no run does. -/
theorem glues_of_joins {c e d : Char} (he : e = c ∨ joins c e = true) (hd : joins c d = true) :
    glues e d = true := by
  unfold joins at he hd
  -- the three kinds of runs; in each the last character is of the kind that goes on
  by_cases hletter : c.isAlpha = true
  · have hletter' : e.isAlpha = true := by
      rcases he with rfl | he
      · exact hletter
      · simpa [hletter] using he
    have : d.isAlpha = true := by simpa [hletter] using hd
    simp [glues, hletter', this]
  · by_cases hdollar : c = '$'
    · have hfigure : (e == '$' || e.isDigit) = true := by
        rcases he with rfl | he
        · simp [hdollar]
        · have : e.isDigit = true := by simpa [hletter, hdollar] using he
          simp [this]
      have : d.isDigit = true := by simpa [hletter, hdollar] using hd
      simp [glues, hfigure, this]
    · have hboth : isRelation c = true ∧ isRelation d = true := by
        simpa [hletter, hdollar] using hd
      have hsign : isRelation e = true := by
        rcases he with rfl | he
        · exact hboth.1
        · have : isRelation c = true ∧ isRelation e = true := by simpa [hletter, hdollar] using he
          exact this.2
      simp [glues, hsign, hboth.2]

/-- The last character of a text does not run into the first one of the next text. -/
def Apart (cs rest : List Char) : Prop :=
  ∀ e ∈ cs.getLast?, ∀ d ∈ rest.head?, glues e d = false

theorem Apart.of_suffix {cs ds rest : List Char} (h : Apart cs rest) (hsuffix : ds <:+ cs) :
    Apart ds rest := by
  intro e he
  obtain ⟨front, rfl⟩ := hsuffix
  apply h e
  rw [List.getLast?_append, he]
  rfl

theorem readName?_length_le {cs name : List Char} {n : Nat} (h : readName? cs = some (name, n)) :
    n ≤ cs.length := by
  fun_induction readName? cs generalizing name n with
  | case1 => cases h
  | case2 rest ih =>
    obtain ⟨⟨name', n'⟩, hread, heq⟩ := Option.map_eq_some_iff.1 h
    cases heq
    have := ih hread
    simp only [List.length_cons]
    omega
  | case3 => cases h; simp
  | case4 c rest _ _ ih =>
    obtain ⟨⟨name', n'⟩, hread, heq⟩ := Option.map_eq_some_iff.1 h
    cases heq
    have := ih hread
    simp only [List.length_cons]
    omega

/-- An identifier that ends in a text ends there whatever follows, unless a quote follows the
closing one. -/
theorem readName?_append {cs name rest : List Char} {n : Nat} (h : readName? cs = some (name, n))
    (hrest : Apart cs rest) : readName? (cs ++ rest) = some (name, n) := by
  fun_induction readName? cs generalizing name n with
  | case1 => cases h
  | case2 cs ih =>
    obtain ⟨⟨name', n'⟩, hread, heq⟩ := Option.map_eq_some_iff.1 h
    have hcs := hrest.of_suffix (List.suffix_append ['"', '"'] cs)
    simp only [List.cons_append, readName?, ih hread hcs, Option.map_some, heq]
  | case3 cs hcs =>
    cases h
    rw [List.cons_append, readName?]
    intro more hmore
    cases cs with
    | nil =>
      -- the closing quote is the last character, and a quote behind it would make it a doubled one
      have := hrest '"' rfl '"' (by rw [show rest = '"' :: more from hmore]; rfl)
      exact absurd this (by decide)
    | cons c cs => exact hcs cs (by rw [(List.cons.inj hmore).1])
  | case4 c cs hdouble hclose ih =>
    obtain ⟨⟨name', n'⟩, hread, heq⟩ := Option.map_eq_some_iff.1 h
    have hcs := hrest.of_suffix (List.suffix_cons c cs)
    have hc : c ≠ '"' := fun hc => hclose hc
    rw [List.cons_append, readName?]
    · rw [ih hread hcs, Option.map_some, heq]
    · exact fun _ hq => absurd hq hc
    · exact hc

/-- A run ends inside the text that it starts in, or with it. -/
theorem run_append {c : Char} {cs rest : List Char} (hrest : Apart (c :: cs) rest) :
    (cs ++ rest).takeWhile (joins c) = cs.takeWhile (joins c) ∧
      (cs ++ rest).dropWhile (joins c) = cs.dropWhile (joins c) ++ rest := by
  by_cases hall : ∀ e ∈ cs, joins c e = true
  · -- the run takes all of the text, so its last character is the one before `rest`
    have hhead : ∀ d ∈ rest.head?, ¬ joins c d = true := by
      intro d hd hjoins
      have hlast : ∃ e ∈ (c :: cs).getLast?, e = c ∨ joins c e = true := by
        rw [List.getLast?_cons]
        cases hcs : cs.getLast? with
        | none => exact ⟨c, rfl, .inl rfl⟩
        | some e => exact ⟨e, rfl, .inr (hall e (List.mem_of_getLast? hcs))⟩
      obtain ⟨e, he, hrun⟩ := hlast
      have := hrest e he d hd
      rw [glues_of_joins hrun hjoins] at this
      cases this
    rw [List.takeWhile_append_of_pos hall, List.dropWhile_append_of_pos hall,
      List.takeWhile_eq_self_iff.2 hall, List.dropWhile_eq_nil_iff.2 hall]
    cases rest with
    | nil => exact ⟨List.append_nil cs, rfl⟩
    | cons d rest =>
      have hd := hhead d rfl
      rw [List.takeWhile_cons_of_neg hd, List.dropWhile_cons_of_neg hd]
      exact ⟨List.append_nil cs, rfl⟩
  · -- the run stops inside, so neither half of it sees `rest`
    have htake : (cs.takeWhile (joins c)).length ≠ cs.length := by
      intro hlen
      exact hall (List.takeWhile_eq_self_iff.1 ((List.takeWhile_prefix _).eq_of_length hlen))
    have hdrop : (cs.dropWhile (joins c)).isEmpty = false := by
      rw [List.isEmpty_eq_false_iff]
      exact fun hnil => hall (List.dropWhile_eq_nil_iff.1 hnil)
    rw [List.takeWhile_append, if_neg htake, List.dropWhile_append, hdrop]
    exact ⟨rfl, rfl⟩

/-- Two texts that stand apart are read one after the other. This is the lemma by which the text of
a statement is read lexeme by lexeme. -/
theorem scan_append {cs rest : List Char} {ps : List Piece} (h : scan cs = some ps)
    (hrest : Apart cs rest) : scan (cs ++ rest) = (scan rest).map (ps ++ ·) := by
  fun_induction scan cs generalizing ps with
  | case1 =>
    cases h
    simp
  | case2 cs name n hread ih =>
    obtain ⟨ps', hscan, rfl⟩ := Option.map_eq_some_iff.1 h
    have happart := hrest.of_suffix (List.suffix_cons '"' cs)
    have hread' := readName?_append hread happart
    have hdrop : (cs ++ rest).drop n = cs.drop n ++ rest :=
      List.drop_append_of_le_length (readName?_length_le hread)
    rw [List.cons_append, scan, if_pos rfl, hread']
    simp only [hdrop, ih hscan (happart.of_suffix (List.drop_suffix n cs)), Option.map_map]
    rfl
  | case3 cs hread => cases h
  | case4 c cs hc ih =>
    obtain ⟨ps', hscan, rfl⟩ := Option.map_eq_some_iff.1 h
    have happart := hrest.of_suffix (List.suffix_cons c cs)
    -- the run is the same with more text behind it, and what is left is left with it
    obtain ⟨htake, hdrop⟩ := run_append hrest
    rw [List.cons_append, scan, if_neg hc, htake, hdrop,
      ih hscan (happart.of_suffix (List.dropWhile_suffix _)), Option.map_map]
    rfl

end FilterQuery.Sql
