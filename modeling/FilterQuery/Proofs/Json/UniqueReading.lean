import FilterQuery.Json.Writer
import FilterQuery.Proofs.Number.ReadBack

/-!
# Compact texts can be read in one way only

The compact text of a value determines the value (`compact_inj`), as long as every floating-point
number in it is finite; the others are all written as null. Texts are compared with something behind
them, because this is how the parts of an array or an object meet.

* A string ends at its closing quote, and its escapes are resolved by the reader of strings
  (`readString?_flatMap_escapeChar`), so a string can be told from what follows it.
* A number ends where its characters do. That is why what follows must not go on with one of them
  (`EndsNumber`): a comma, a closing bracket or the end of the text comes next.
* The first character gives the kind of a value (`kindOf?_writeCompact`), and no value starts with
  the bracket that closes an array, so an empty one is told from the others.

`writeCompact_inj` puts them together by induction on the value, its items and its fields.
-/

namespace FilterQuery.Json

/-! ## Strings -/

/-- How a character is written inside a string, and what a reader takes it for. -/
inductive Escape (c : Char) : List Char → StringUnit → Prop where
  | plain (hquote : c ≠ '"') (hbackslash : c ≠ '\\') (hprintable : 0x20 ≤ c.toNat) :
      Escape c [c] (.char c)
  | letter {k : Char} (hk : escaped? k = some c) : Escape c ['\\', k] (.char c)
  | unit (hcontrol : c.toNat < 0x20) :
      Escape c ['\\', 'u', '0', '0', hexFigure (c.toNat / 16), hexFigure (c.toNat % 16)]
        (.unit c.toNat)

/-- Every character is written in one of the three ways, which is found by the tests of
`escapeChar`, one after the other. -/
theorem exists_escape (c : Char) : ∃ u, Escape c (escapeChar c) u := by
  unfold escapeChar
  split
  next h => exact ⟨_, .letter (by subst h; rfl)⟩
  next hquote =>
  split
  next h => exact ⟨_, .letter (by subst h; rfl)⟩
  next hbackslash =>
  split
  next h => exact ⟨_, .letter (by subst h; rfl)⟩
  next =>
  split
  next h => exact ⟨_, .letter (by subst h; rfl)⟩
  next =>
  split
  next h => exact ⟨_, .letter (by subst h; rfl)⟩
  next =>
  split
  next h => exact ⟨_, .letter (by subst h; rfl)⟩
  next =>
  split
  next h => exact ⟨_, .letter (by subst h; rfl)⟩
  next =>
  split
  next hcontrol => exact ⟨_, .unit hcontrol⟩
  next hprintable => exact ⟨_, .plain hquote hbackslash (Nat.le_of_not_lt hprintable)⟩

theorem splitBody?_cons {c : Char} (hquote : c ≠ '"') (hbackslash : c ≠ '\\') (rest : List Char) :
    splitBody? (c :: rest) = (splitBody? rest).map fun (body, n) => (c :: body, n + 1) := by
  rw [splitBody?]
  · exact hquote
  · intro d ds h
    exact absurd h hbackslash

/-- A hexadecimal figure ends no string and starts no escape. So the escape of a control character
does not end before its figures do. -/
theorem hexFigure_ne : ∀ n < 16, hexFigure n ≠ '"' ∧ hexFigure n ≠ '\\' := by decide

/-- The two figures of a control character are read as its code. -/
theorem hexUnit?_hexFigure :
    ∀ n < 32, hexUnit? '0' '0' (hexFigure (n / 16)) (hexFigure (n % 16)) = some n := by decide

namespace Escape

variable {c : Char} {cs : List Char} {u : StringUnit} (h : Escape c cs u)
include h

/-- What a character is written as stays in the body as a whole: no quote in it ends the string. An
escaped quote has a backslash in front of it, which takes the quote with it. -/
theorem splitBody?_append (rest : List Char) :
    splitBody? (cs ++ rest) =
      (splitBody? rest).map fun (body, n) => (cs ++ body, n + cs.length) := by
  cases h with
  | plain hquote hbackslash => exact splitBody?_cons hquote hbackslash rest
  | letter hk => rfl
  -- six characters, of which the first two are an escape and the others are plain
  | unit hcontrol =>
    have hhigh := hexFigure_ne (c.toNat / 16) (by omega)
    have hlow := hexFigure_ne (c.toNat % 16) (by omega)
    show splitBody? ('\\' :: 'u' :: '0' :: '0' :: hexFigure (c.toNat / 16) ::
      hexFigure (c.toNat % 16) :: rest) = _
    rw [splitBody?, splitBody?_cons (by decide) (by decide),
      splitBody?_cons (by decide) (by decide), splitBody?_cons hhigh.1 hhigh.2,
      splitBody?_cons hlow.1 hlow.2]
    simp only [Option.map_map]
    rfl

theorem units?_append (rest : List Char) : units? (cs ++ rest) = (units? rest).map (u :: ·) := by
  cases h with
  | plain hquote hbackslash hprintable =>
    show units? (c :: rest) = _
    rw [units?, if_neg (by simp [hbackslash]; omega)]
    all_goals simp [hbackslash]
  | @letter k hk =>
    -- the letter of a short escape is never the one of a long escape
    have hu : k ≠ 'u' := by
      intro h
      rw [h] at hk
      cases hk
    show units? ('\\' :: k :: rest) = _
    rw [units?, hk]
    · cases units? rest <;> rfl
    · simp [hu]
  | unit hcontrol =>
    have hunit := hexUnit?_hexFigure c.toNat hcontrol
    show units? ('\\' :: 'u' :: '0' :: '0' :: hexFigure (c.toNat / 16) ::
      hexFigure (c.toNat % 16) :: rest) = _
    rw [units?, hunit]
    cases units? rest <;> rfl

/-- The unit of a character is joined to the character again. A control character is below the
surrogates, so it never waits for a second half. -/
theorem joinUnits?_cons (units : List StringUnit) :
    joinUnits? none (u :: units) = (joinUnits? none units).map (c :: ·) := by
  cases h with
  | plain | letter => rfl
  | unit hcontrol =>
    -- surrogates begin far above the control characters
    have hhigh : ¬ isHighUnit c.toNat = true := by
      simp only [isHighUnit, Bool.and_eq_true, decide_eq_true_iff]
      omega
    have hlow : ¬ isLowUnit c.toNat = true := by
      simp only [isLowUnit, Bool.and_eq_true, decide_eq_true_iff]
      omega
    rw [joinUnits?, if_neg hhigh, if_neg hlow, Char.ofNat_toNat]

end Escape

/-- The first quote that is not part of an escape is the one behind the string, and this holds
whatever comes after it. -/
theorem splitBody?_flatMap_escapeChar (cs after : List Char) :
    splitBody? (cs.flatMap escapeChar ++ '"' :: after) =
      some (cs.flatMap escapeChar, (cs.flatMap escapeChar).length + 1) := by
  induction cs with
  | nil => rfl
  | cons c cs ih =>
    obtain ⟨u, hu⟩ := exists_escape c
    rw [List.flatMap_cons, List.append_assoc, hu.splitBody?_append, ih, Option.map_some,
      List.length_append]
    simp only [Option.some.injEq, Prod.mk.injEq, true_and]
    omega

/-- The escapes of a body are resolved to the characters that were written. The only escapes that
are written are those of two characters and of control characters. -/
theorem exists_units?_flatMap_escapeChar (cs : List Char) :
    ∃ units, units? (cs.flatMap escapeChar) = some units ∧ joinUnits? none units = some cs := by
  induction cs with
  | nil => exact ⟨[], rfl, rfl⟩
  | cons c cs ih =>
    obtain ⟨u, hu⟩ := exists_escape c
    obtain ⟨units, hunits, hjoin⟩ := ih
    refine ⟨u :: units, ?_, ?_⟩
    · rw [List.flatMap_cons, hu.units?_append, hunits, Option.map_some]
    · rw [hu.joinUnits?_cons, hjoin, Option.map_some]

/-- A written string is read back, whatever follows it. With this, a string can be cut off the text
of a value, and the rest is known. -/
theorem readString?_flatMap_escapeChar (s : String) (after : List Char) :
    readString? (s.toList.flatMap escapeChar ++ '"' :: after) =
      some (s, (s.toList.flatMap escapeChar).length + 1) := by
  obtain ⟨units, hunits, hjoin⟩ := exists_units?_flatMap_escapeChar s.toList
  unfold readString?
  rw [splitBody?_flatMap_escapeChar]
  simp only [Option.bind_eq_bind, Option.bind_some, hunits, hjoin, String.ofList_toList]
  rfl

/-- A written string can be told from what follows it, because the reader finds both the string and
its length. -/
theorem writeString_inj {s t : String} {after after' : List Char}
    (h : writeString s after = writeString t after') : s = t ∧ after = after' := by
  have hbody := List.tail_eq_of_cons_eq h
  have hread := congrArg readString? hbody
  rw [readString?_flatMap_escapeChar, readString?_flatMap_escapeChar] at hread
  -- both strings are what the one text is read as
  have hs : s = t := congrArg Prod.fst (Option.some.inj hread)
  subst hs
  exact ⟨rfl, List.tail_eq_of_cons_eq (List.append_cancel_left hbody)⟩

/-! ## Values -/

mutual

/-- Whether all floating-point numbers in the value are finite. -/
def isFinite : Json → Bool
  | number n => n.isFinite
  | array items => isFiniteItems items
  | object fields => isFiniteFields fields
  | _ => true

/-- Whether all floating-point numbers in the items are finite. -/
def isFiniteItems : List Json → Bool
  | [] => true
  | item :: items => isFinite item && isFiniteItems items

/-- Whether all floating-point numbers in the fields are finite. -/
def isFiniteFields : List (String × Json) → Bool
  | [] => true
  | (_, value) :: fields => isFinite value && isFiniteFields fields

end

/-- The kinds of values that the first characters of their texts tell apart. -/
inductive Kind where
  | null
  | bool (b : Bool)
  | number
  | string
  | array
  | object

/-- The kind of a value. -/
def kind : Json → Kind
  | null => .null
  | bool b => .bool b
  | number _ => .number
  | string _ => .string
  | array _ => .array
  | object _ => .object

/-- The kind of the values whose texts start with the character. -/
def kindOf? (c : Char) : Option Kind :=
  if c.isDigit || c == '-' then some .number
  else if c = 'n' then some .null
  else if c = 't' then some (.bool true)
  else if c = 'f' then some (.bool false)
  else if c = '"' then some .string
  else if c = '[' then some .array
  else if c = '\x7b' then some .object
  else none

/-- The first character of a text gives the kind of the value. Truth values count as two kinds, so
that they need no further reading. -/
theorem kindOf?_writeCompact {j : Json} (hj : j.isFinite = true) (after : List Char) :
    (j.writeCompact after).head?.bind kindOf? = some j.kind := by
  cases j with
  | null => rfl
  | bool b => cases b <;> rfl
  | number n =>
    rw [isFinite] at hj
    -- a number starts with a figure or a minus sign
    obtain ⟨c, cs, hcs, hc⟩ := Number.exists_cons_write_json hj
    have hkind : kindOf? c = some .number := by
      unfold kindOf?
      rw [if_pos (by simpa using hc)]
    show ((n.write .json).toList ++ after).head?.bind kindOf? = some .number
    rw [hcs]
    exact hkind
  | string s => rfl
  | array items => cases items <;> rfl
  | object fields => cases fields <;> rfl

/-- Values with the same text in front are of the same kind. The first character decides: a letter
for null and the truth values, a quote, a bracket, a brace, or what a number starts with. -/
theorem kind_eq_of_writeCompact_eq {j j' : Json} (hj : j.isFinite = true) (hj' : j'.isFinite = true)
    {after after' : List Char} (h : j.writeCompact after = j'.writeCompact after') :
    j.kind = j'.kind := by
  have hkind := kindOf?_writeCompact hj after
  rw [h, kindOf?_writeCompact hj' after'] at hkind
  exact (Option.some.inj hkind).symm

/-- No value starts with a character that no kind has, such as a closing bracket. -/
theorem writeCompact_ne_cons {j : Json} (hj : j.isFinite = true) {c : Char} (hc : kindOf? c = none)
    (after rest : List Char) : j.writeCompact after ≠ c :: rest := by
  intro h
  have hkind := kindOf?_writeCompact hj after
  rw [h] at hkind
  exact Option.some_ne_none _ (hkind.symm.trans hc)

/-- No character of a number comes next. -/
def EndsNumber (after : List Char) : Prop := ∀ c ∈ after.head?, isNumberChar c = false

/-- The characters of a number are those up to the first one that cannot belong to a number. What
stands behind a number in a text is a comma or a bracket, so the number is cut off there. -/
theorem takeWhile_isNumberChar {cs after : List Char} (hcs : ∀ c ∈ cs, isNumberChar c = true)
    (hafter : EndsNumber after) : (cs ++ after).takeWhile isNumberChar = cs := by
  rw [List.takeWhile_append_of_pos hcs]
  cases after with
  | nil => rw [List.takeWhile_nil, List.append_nil]
  | cons c after =>
    have hc : isNumberChar c = false := hafter c rfl
    rw [List.takeWhile_cons_of_neg (by simp [hc]), List.append_nil]

/-- Behind an item there is a comma or the bracket that closes the array. So a number in an array
ends where its text does. -/
theorem endsNumber_writeCompactItems (items : List Json) (after : List Char) :
    EndsNumber (writeCompactItems items (']' :: after)) := by
  intro c hc
  cases items with
  | nil =>
    cases hc
    rfl
  | cons item items =>
    cases hc
    rfl

/-- Behind a field there is a comma or the brace that closes the object. -/
theorem endsNumber_writeCompactFields (fields : List (String × Json)) (after : List Char) :
    EndsNumber (writeCompactFields fields ('\x7d' :: after)) := by
  intro c hc
  cases fields with
  | nil =>
    cases hc
    rfl
  | cons field fields =>
    cases hc
    rfl

/-- Two numbers with their rests: the texts of the numbers are cut off first, then read back. -/
theorem number_append_inj {m n : Number} (hm : m.isFinite = true) (hn : n.isFinite = true)
    {after after' : List Char} (hafter : EndsNumber after) (hafter' : EndsNumber after')
    (h : (m.write .json).toList ++ after = (n.write .json).toList ++ after') :
    m = n ∧ after = after' := by
  have htext : (m.write .json).toList = (n.write .json).toList := by
    rw [← takeWhile_isNumberChar (fun _ => Number.isNumberChar_of_mem_write_json hm) hafter, h,
      takeWhile_isNumberChar (fun _ => Number.isNumberChar_of_mem_write_json hn) hafter']
  rw [htext] at h
  exact ⟨Number.write_json_inj hm hn (String.toList_inj.1 htext), List.append_cancel_left h⟩

/-- The first item is told from the end of an array, so it can be read like the others. -/
theorem writeCompactItems_eq_of_array {items items' : List Json}
    (hitems : isFiniteItems items = true) (hitems' : isFiniteItems items' = true)
    {after after' : List Char}
    (h : (array items).writeCompact after = (array items').writeCompact after') :
    writeCompactItems items (']' :: after) = writeCompactItems items' (']' :: after') := by
  cases items with
  | nil =>
    cases items' with
    | nil => exact List.tail_eq_of_cons_eq h
    | cons =>
      rw [isFiniteItems, Bool.and_eq_true] at hitems'
      exact absurd (List.tail_eq_of_cons_eq h).symm (writeCompact_ne_cons hitems'.1 rfl _ _)
  | cons =>
    cases items' with
    | nil =>
      rw [isFiniteItems, Bool.and_eq_true] at hitems
      exact absurd (List.tail_eq_of_cons_eq h) (writeCompact_ne_cons hitems.1 rfl _ _)
    | cons => exact congrArg (',' :: ·) (List.tail_eq_of_cons_eq h)

/-- The first key is told from the end of an object. -/
theorem writeCompactFields_eq_of_object {fields fields' : List (String × Json)}
    {after after' : List Char}
    (h : (object fields).writeCompact after = (object fields').writeCompact after') :
    writeCompactFields fields ('\x7d' :: after) =
      writeCompactFields fields' ('\x7d' :: after') := by
  cases fields with
  | nil =>
    cases fields' with
    | nil => exact List.tail_eq_of_cons_eq h
    | cons =>
      exact absurd (List.head_eq_of_cons_eq (List.tail_eq_of_cons_eq h)) (by decide)
  | cons =>
    cases fields' with
    | nil => exact absurd (List.head_eq_of_cons_eq (List.tail_eq_of_cons_eq h)) (by decide)
    | cons => exact congrArg (',' :: ·) (List.tail_eq_of_cons_eq h)

mutual

/-- The whole text determines both the value in front and what stands behind it. The rest has to be
free, because a value inside of an array or an object is followed by others; a number asks that it
ends there. -/
theorem writeCompact_inj (j j' : Json) (hj : j.isFinite = true) (hj' : j'.isFinite = true)
    {after after' : List Char} (hafter : EndsNumber after) (hafter' : EndsNumber after')
    (h : j.writeCompact after = j'.writeCompact after') : j = j' ∧ after = after' := by
  -- from here on only values of one kind are compared
  have hkind := kind_eq_of_writeCompact_eq hj hj' h
  match j with
  | null =>
    cases j' with
    | null => exact ⟨rfl, List.append_cancel_left h⟩
    | _ => cases hkind
  | bool b =>
    cases j' with
    | bool b' =>
      cases hkind
      cases b <;> exact ⟨rfl, List.append_cancel_left h⟩
    | _ => cases hkind
  | number n =>
    cases j' with
    | number n' =>
      obtain ⟨hn, hrest⟩ := number_append_inj hj hj' hafter hafter' h
      exact ⟨congrArg number hn, hrest⟩
    | _ => cases hkind
  | string s =>
    cases j' with
    | string s' =>
      obtain ⟨hs, hrest⟩ := writeString_inj h
      exact ⟨congrArg string hs, hrest⟩
    | _ => cases hkind
  | array items =>
    cases j' with
    | array items' =>
      rw [isFinite] at hj hj'
      obtain ⟨hitems, hrest⟩ :=
        writeCompactItems_inj items items' hj hj' (writeCompactItems_eq_of_array hj hj' h)
      exact ⟨congrArg array hitems, hrest⟩
    | _ => cases hkind
  | object fields =>
    cases j' with
    | object fields' =>
      rw [isFinite] at hj hj'
      obtain ⟨hfields, hrest⟩ :=
        writeCompactFields_inj fields fields' hj hj' (writeCompactFields_eq_of_object h)
      exact ⟨congrArg object hfields, hrest⟩
    | _ => cases hkind

/-- The items of an array, each behind a comma, and what stands behind the array. -/
theorem writeCompactItems_inj (items items' : List Json) (hitems : isFiniteItems items = true)
    (hitems' : isFiniteItems items' = true) {after after' : List Char}
    (h : writeCompactItems items (']' :: after) = writeCompactItems items' (']' :: after')) :
    items = items' ∧ after = after' := by
  match items, items' with
  | [], [] => exact ⟨rfl, List.tail_eq_of_cons_eq h⟩
  | [], _ :: _ => exact absurd (List.head_eq_of_cons_eq h) (by decide)
  | _ :: _, [] => exact absurd (List.head_eq_of_cons_eq h) (by decide)
  | item :: items, item' :: items' =>
    rw [isFiniteItems, Bool.and_eq_true] at hitems hitems'
    obtain ⟨hitem, hrest⟩ := writeCompact_inj item item' hitems.1 hitems'.1
      (endsNumber_writeCompactItems items after) (endsNumber_writeCompactItems items' after')
      (List.tail_eq_of_cons_eq h)
    obtain ⟨hmore, hafter⟩ := writeCompactItems_inj items items' hitems.2 hitems'.2 hrest
    exact ⟨by rw [hitem, hmore], hafter⟩

/-- The fields of an object: the key ends with its quote, then the value is compared as any other.
-/
theorem writeCompactFields_inj (fields fields' : List (String × Json))
    (hfields : isFiniteFields fields = true) (hfields' : isFiniteFields fields' = true)
    {after after' : List Char}
    (h : writeCompactFields fields ('\x7d' :: after) =
      writeCompactFields fields' ('\x7d' :: after')) :
    fields = fields' ∧ after = after' := by
  match fields, fields' with
  | [], [] => exact ⟨rfl, List.tail_eq_of_cons_eq h⟩
  | [], _ :: _ => exact absurd (List.head_eq_of_cons_eq h) (by decide)
  | _ :: _, [] => exact absurd (List.head_eq_of_cons_eq h) (by decide)
  | (key, value) :: fields, (key', value') :: fields' =>
    rw [isFiniteFields, Bool.and_eq_true] at hfields hfields'
    -- the comma, the key, the colon, and then the value
    obtain ⟨hkey, hmember⟩ := writeString_inj (List.tail_eq_of_cons_eq h)
    obtain ⟨hvalue, hrest⟩ := writeCompact_inj value value' hfields.1 hfields'.1
      (endsNumber_writeCompactFields fields after) (endsNumber_writeCompactFields fields' after')
      (List.tail_eq_of_cons_eq hmember)
    obtain ⟨hmore, hafter⟩ := writeCompactFields_inj fields fields' hfields.2 hfields'.2 hrest
    exact ⟨by rw [hkey, hvalue, hmore], hafter⟩

end

/-- The compact text of a value determines the value. -/
theorem compact_inj {j j' : Json} (hj : j.isFinite = true) (hj' : j'.isFinite = true)
    (h : j.compact = j'.compact) : j = j' := by
  have htext : j.writeCompact [] = j'.writeCompact [] := String.ofList_injective h
  have hend : EndsNumber [] := fun c hc => absurd hc (Option.not_mem_none c)
  exact (writeCompact_inj j j' hj hj' hend hend htext).1

end FilterQuery.Json
