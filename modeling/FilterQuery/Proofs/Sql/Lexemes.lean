import FilterQuery.Proofs.Sql.Scanner

/-!
# What the lexemes of a statement are read as

A list of lexemes is written as one text without anything between them, so it is not obvious that a
reader of the text finds the lexemes again. `Scans ls ps` says that the text of `ls` is read as the
parts `ps`, and `pieces ls` are the parts one would wish for.

* `scans_single`: the text of one lexeme is read as its parts, whatever characters a name holds.
* `Scans.append_mark`, `Scans.mark_cons`: lexemes are put together at a mark with a blank, a
  parenthesis or the like on that side, and so are their parts.
* `allowed_of_mem_pieces`: outside of identifiers there are only words of the `vocabulary` and
  placeholders.
-/

namespace FilterQuery.Sql

/-! ## Parts of lexemes -/

/-- The text of a placeholder. -/
def placeholder (n : Nat) : String := "$" ++ toString n

/-- The words, signs and blanks in the text of a mark. -/
def Mark.words : Mark → List String
  | select => ["SELECT", " "]
  | fromTable => [" ", "FROM", " "]
  | whereHolds => [" ", "WHERE", " "]
  | conjunction => [" ", "AND", " "]
  | disjunction => [" ", "OR", " "]
  | isNull => [" ", "IS", " ", "NULL"]
  | isNotNull => [" ", "IS", " ", "NOT", " ", "NULL"]
  | isIn => [" ", "IN", " ", "("]
  | isNotIn => [" ", "NOT", " ", "IN", " ", "("]
  | like => [" ", "LIKE", " "]
  | notLike => [" ", "NOT", " ", "LIKE", " "]
  | likeAnyCase => [" ", "ILIKE", " "]
  | notLikeAnyCase => [" ", "NOT", " ", "ILIKE", " "]
  | lower => ["LOWER", "("]
  | equal => [" ", "=", " "]
  | notEqual => [" ", "<>", " "]
  | bound .greater => [" ", ">", " "]
  | bound .less => [" ", "<", " "]
  | bound .greaterOrEqual => [" ", ">=", " "]
  | bound .lessOrEqual => [" ", "<=", " "]
  | openParen => ["("]
  | closeParen => [")"]
  | comma => [",", " "]
  | dot => ["."]
  | star => ["*"]

/-- The parts that a lexeme stands for. -/
def Lexeme.pieces : Lexeme → List Piece
  | mark m => m.words.map .bare
  | name identifier => [.name identifier]
  | slot n => [.bare (placeholder n)]

/-- The parts that lexemes stand for. -/
def pieces (ls : List Lexeme) : List Piece := ls.flatMap Lexeme.pieces

@[simp] theorem pieces_nil : pieces [] = [] := rfl

@[simp] theorem pieces_cons (l : Lexeme) (ls : List Lexeme) :
    pieces (l :: ls) = l.pieces ++ pieces ls := rfl

@[simp] theorem pieces_append (ls ls' : List Lexeme) :
    pieces (ls ++ ls') = pieces ls ++ pieces ls' :=
  List.flatMap_append

/-! ## Identifiers and placeholders -/

/-- The identifier that a part is. -/
def Piece.identifier? : Piece → Option String
  | name identifier => some identifier
  | bare _ => none

/-- The placeholder that a part is: a run that starts with a dollar sign. -/
def Piece.placeholder? : Piece → Option String
  | name _ => none
  | bare text => if text.toList.head? = some '$' then some text else none

/-- The identifiers among the parts of a text, in their order. -/
def identifiers (ps : List Piece) : List String := ps.filterMap Piece.identifier?

/-- The placeholders among the parts of a text, in their order. -/
def placeholders (ps : List Piece) : List String := ps.filterMap Piece.placeholder?

@[simp] theorem identifiers_append (ps ps' : List Piece) :
    identifiers (ps ++ ps') = identifiers ps ++ identifiers ps' :=
  List.filterMap_append

@[simp] theorem placeholders_append (ps ps' : List Piece) :
    placeholders (ps ++ ps') = placeholders ps ++ placeholders ps' :=
  List.filterMap_append

/-- The words, signs and blanks that stand in statements outside of identifiers. -/
def vocabulary : List String :=
  ["SELECT", "FROM", "WHERE", "AND", "OR", "IS", "NOT", "NULL", "IN", "LIKE", "ILIKE", "LOWER",
    "*", "(", ")", ",", ".", "=", "<>", "<", "<=", ">", ">=", " "]

/-- A part is an identifier, a word of the vocabulary or a placeholder. -/
def Piece.Allowed : Piece → Prop
  | name _ => True
  | bare text => text ∈ vocabulary ∨ ∃ n, text = placeholder n

/-- The words of every mark are in the vocabulary. -/
theorem Mark.mem_vocabulary {m : Mark} {w : String} (h : w ∈ m.words) : w ∈ vocabulary := by
  have hwords : m.words ⊆ vocabulary := by
    cases m with
    | bound b => cases b <;> decide
    | _ => decide
  exact hwords h

/-- Whatever the lexemes are, their parts are identifiers, words of the vocabulary and placeholders.
-/
theorem allowed_of_mem_pieces {ls : List Lexeme} {p : Piece} (h : p ∈ pieces ls) : p.Allowed := by
  obtain ⟨l, -, hp⟩ := List.mem_flatMap.1 h
  cases l with
  | mark m =>
    obtain ⟨w, hw, rfl⟩ := List.mem_map.1 hp
    exact .inl (m.mem_vocabulary hw)
  | name identifier =>
    rw [List.mem_singleton.1 hp]
    trivial
  | slot n =>
    rw [List.mem_singleton.1 hp]
    exact .inr ⟨n, rfl⟩

/-- What is not found in the vocabulary is not found in a mark. Identifiers and placeholders are the
two cases in which it is used. -/
theorem filterMap_mark {α : Type} {f : Piece → Option α} (hf : ∀ w ∈ vocabulary, f (.bare w) = none)
    (m : Mark) : (Lexeme.mark m).pieces.filterMap f = [] := by
  rw [List.filterMap_eq_nil_iff]
  intro p hp
  obtain ⟨w, hw, rfl⟩ := List.mem_map.1 hp
  exact hf w (m.mem_vocabulary hw)

@[simp] theorem identifiers_mark (m : Mark) : identifiers (Lexeme.mark m).pieces = [] :=
  filterMap_mark (fun _ _ => rfl) m

/-- A mark has no placeholders, since no word of the vocabulary starts with a dollar sign. This is
decided for the vocabulary as a whole and not for each mark. -/
@[simp] theorem placeholders_mark (m : Mark) : placeholders (Lexeme.mark m).pieces = [] :=
  filterMap_mark (by decide) m

@[simp] theorem placeholders_name (identifier : String) :
    placeholders (Lexeme.name identifier).pieces = [] := rfl

@[simp] theorem identifiers_name (identifier : String) :
    identifiers (Lexeme.name identifier).pieces = [identifier] := rfl

@[simp] theorem identifiers_slot (n : Nat) : identifiers (Lexeme.slot n).pieces = [] := rfl

/-- A placeholder is a dollar sign and the figures of its number. -/
theorem toList_placeholder (n : Nat) : (placeholder n).toList = '$' :: Nat.toDigits 10 n := by
  rw [placeholder, String.toList_append]
  show '$' :: (String.ofList (Nat.toDigits 10 n)).toList = _
  rw [String.toList_ofList]

@[simp] theorem placeholders_slot (n : Nat) :
    placeholders (Lexeme.slot n).pieces = [placeholder n] := by
  simp [placeholders, Lexeme.pieces, Piece.placeholder?, toList_placeholder]

/-- Names are found as identifiers, in their order. -/
theorem identifiers_names (names : List String) :
    identifiers (pieces (names.map .name)) = names := by
  induction names with
  | nil => rfl
  | cons name names ih =>
    rw [List.map_cons, pieces_cons, identifiers_append, identifiers_name, ih]
    rfl

/-- No name is taken for a placeholder, not even one that starts with a dollar sign. -/
theorem placeholders_names (names : List String) :
    placeholders (pieces (names.map .name)) = [] := by
  induction names with
  | nil => rfl
  | cons name names ih =>
    rw [List.map_cons, pieces_cons, placeholders_append, ih]
    rfl

theorem identifiers_slots (ns : List Nat) : identifiers (pieces (ns.map .slot)) = [] := by
  induction ns with
  | nil => rfl
  | cons n ns ih =>
    rw [List.map_cons, pieces_cons, identifiers_append, ih]
    rfl

theorem placeholders_slots (ns : List Nat) :
    placeholders (pieces (ns.map .slot)) = ns.map placeholder := by
  induction ns with
  | nil => rfl
  | cons n ns ih =>
    rw [List.map_cons, pieces_cons, placeholders_append, placeholders_slot, ih]
    rfl

/-- What is not found in the vocabulary is found as often with commas between the lexemes as
without. -/
theorem filterMap_commas {α : Type} {f : Piece → Option α}
    (hf : ∀ w ∈ vocabulary, f (.bare w) = none) (ls : List Lexeme) :
    (pieces (ls.intersperse (.mark .comma))).filterMap f = (pieces ls).filterMap f := by
  induction ls with
  | nil => rfl
  | cons l ls ih =>
    cases ls with
    | nil => rfl
    | cons l' ls =>
      rw [List.intersperse_cons_cons, pieces_cons, pieces_cons, pieces_cons, List.filterMap_append,
        List.filterMap_append, List.filterMap_append, filterMap_mark hf, ih]
      rfl

theorem identifiers_commas (ls : List Lexeme) :
    identifiers (pieces (ls.intersperse (.mark .comma))) = identifiers (pieces ls) :=
  filterMap_commas (fun _ _ => rfl) ls

theorem placeholders_commas (ls : List Lexeme) :
    placeholders (pieces (ls.intersperse (.mark .comma))) = placeholders (pieces ls) :=
  filterMap_commas (by decide) ls

/-! ## Reading lexemes -/

/-- The text of the lexemes is read as these parts. -/
def Scans (ls : List Lexeme) (ps : List Piece) : Prop := scan (ls.flatMap Lexeme.chars) = some ps

theorem scan_mark (m : Mark) : scan m.text.toList = some (m.words.map .bare) := by
  cases m with
  | bound b => cases b <;> decide +kernel
  | _ => decide +kernel

/-- Whatever an identifier holds, its quotes are read as its own up to the one at its end. -/
theorem readName?_quote (cs : List Char) :
    readName? (cs.flatMap quoteChar ++ ['"']) = some (cs, (cs.flatMap quoteChar).length + 1) := by
  induction cs with
  | nil => rfl
  | cons c cs ih =>
    rw [List.flatMap_cons, List.append_assoc, List.length_append]
    -- a quote is written as two, which are read as one; any other character is neither
    by_cases hc : c = '"'
    · rw [hc, show quoteChar '"' = ['"', '"'] from rfl, List.cons_append, List.cons_append,
        List.nil_append, readName?, ih, Option.map_some, List.length_cons, List.length_singleton,
        Nat.add_comm (1 + 1)]
    · rw [show quoteChar c = [c] from if_neg hc, List.singleton_append, readName?, ih,
        Option.map_some, List.length_singleton, Nat.add_comm 1]
      · exact fun _ hq => absurd hq hc
      · exact hc

/-- A quoted name is read as one identifier, whatever characters it holds. A quote inside is doubled
and read as one, so the first single quote is the closing one. -/
theorem scan_name (identifier : String) :
    scan (quoteName identifier) = some [.name identifier] := by
  rw [quoteName, scan, if_pos rfl, readName?_quote]
  -- the identifier takes the whole text
  have hend : (identifier.toList.flatMap quoteChar ++ ['"']).drop
      ((identifier.toList.flatMap quoteChar).length + 1) = [] :=
    List.drop_eq_nil_of_le (by rw [List.length_append]; exact Nat.le_refl _)
  simp only [hend, String.ofList_toList, scan]
  rfl

/-- The dollar sign and the figures of a placeholder are read as one run. -/
theorem scan_slot (n : Nat) :
    scan ('$' :: Nat.toDigits 10 n) = some [.bare (placeholder n)] := by
  have hfigures : ∀ c ∈ Nat.toDigits 10 n, joins '$' c = true :=
    fun c hc => Nat.isDigit_of_mem_toDigits (by decide) (by decide) hc
  rw [scan, if_neg (by decide), List.takeWhile_eq_self_iff.2 hfigures,
    List.dropWhile_eq_nil_iff.2 hfigures, ← toList_placeholder, String.ofList_toList, scan]
  rfl

/-- The text of one lexeme is read as what the lexeme stands for. -/
theorem scans_single (l : Lexeme) : Scans [l] l.pieces := by
  rw [Scans, List.flatMap_singleton]
  cases l with
  | mark m => exact scan_mark m
  | name identifier => exact scan_name identifier
  | slot n => exact scan_slot n

/-! ## Lexemes side by side -/

/-- The characters that never run into another one. -/
def isInert (c : Char) : Bool := !(c.isAlpha || c.isDigit || isRelation c || c == '$' || c == '"')

/-- The text of the mark does not run into what stands before it. -/
def Mark.opensApart (m : Mark) : Bool := m.text.toList.head?.any isInert

/-- The text of the mark does not run into what stands after it. -/
def Mark.closesApart (m : Mark) : Bool := m.text.toList.getLast?.any isInert

/-- An inert character runs into nothing, on neither side. Blanks, parentheses, commas, dots and
stars are of this kind. -/
theorem glues_of_isInert {c : Char} (hc : isInert c = true) (d : Char) :
    glues c d = false ∧ glues d c = false := by
  simp only [isInert, Bool.not_eq_true', Bool.or_eq_false_iff] at hc
  simp [glues, hc]

/-- A mark that starts with an inert character can be told from what stands before it. -/
theorem Mark.apart_of_opensApart {m : Mark} (h : m.opensApart = true) (cs rest : List Char) :
    Apart cs (m.text.toList ++ rest) := by
  obtain ⟨c, hhead, hc⟩ := (Option.any_eq_true _ _).1 h
  intro e _ d hd
  rw [List.head?_append, hhead] at hd
  obtain rfl : c = d := Option.some.inj hd
  exact (glues_of_isInert hc e).2

theorem Mark.apart_of_closesApart {m : Mark} (h : m.closesApart = true) (rest : List Char) :
    Apart m.text.toList rest := by
  obtain ⟨c, hlast, hc⟩ := (Option.any_eq_true _ _).1 h
  intro e he d _
  rw [hlast] at he
  obtain rfl : c = e := Option.some.inj he
  exact (glues_of_isInert hc d).1

/-- Lexemes before a mark are read on their own. The mark has to start with a character that does
not run into the one before it. -/
theorem Scans.append_mark {ls rest : List Lexeme} {ps ps' : List Piece} {m : Mark}
    (h : Scans ls ps) (hm : m.opensApart = true) (hrest : Scans (.mark m :: rest) ps') :
    Scans (ls ++ .mark m :: rest) (ps ++ ps') := by
  have happart : Apart (ls.flatMap Lexeme.chars) ((Lexeme.mark m :: rest).flatMap Lexeme.chars) :=
    m.apart_of_opensApart hm _ _
  -- the two texts cannot be taken for one another at the joint, so they are read one by one
  rw [Scans, List.flatMap_append, scan_append h happart, hrest]
  rfl

/-- Lexemes after a mark are read on their own. Here it is the last character of the mark that must
not run into what follows. -/
theorem Scans.mark_cons {rest : List Lexeme} {ps : List Piece} {m : Mark}
    (hm : m.closesApart = true) (h : Scans rest ps) :
    Scans (.mark m :: rest) ((Lexeme.mark m).pieces ++ ps) := by
  have happart : Apart m.text.toList (rest.flatMap Lexeme.chars) := m.apart_of_closesApart hm _
  rw [Scans, List.flatMap_cons]
  show scan (m.text.toList ++ _) = _
  rw [scan_append (scan_mark m) happart, h]
  rfl

/-- Lexemes with commas between them are read as their parts, whatever they are: a comma has a sign
on its left and a blank on its right. -/
theorem scans_commas (ls : List Lexeme) :
    Scans (ls.intersperse (.mark .comma)) (pieces (ls.intersperse (.mark .comma))) := by
  induction ls with
  | nil => exact scan.eq_1
  | cons l ls ih =>
    cases ls with
    | nil => simpa using scans_single l
    | cons l' ls =>
      rw [List.intersperse_cons_cons]
      exact (scans_single l).append_mark rfl (ih.mark_cons rfl)

end FilterQuery.Sql
