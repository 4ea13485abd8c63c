import FilterQuery.Proofs.Literal.Typing
import FilterQuery.Proofs.Number.Rounding

/-!
# What a bare word is

The words of the language are told apart by how they are written: one of the two truth values, an
integer (`WritesInteger`: figures behind an optional sign), a decimal (`WritesDecimal`: figures with
a point between them), or anything else. A number is only taken as one if its type can hold it. An
integer is kept exactly or not at all, and a decimal is rounded to the nearest floating-point
number, or kept as a text if that would be infinity (`ofWord_classified`).

The two forms are said without the reading of numbers. `readNumber?_of_writesInteger` and
`readNumber?_of_writesDecimal` say what is read from each of them, and `writes_of_readNumber?` that
nothing is read from any other word.
-/

namespace FilterQuery.Literal

/-! ## Written numbers -/

/-- The word is `body` behind an optional sign, which is a minus if `negative` is set. -/
inductive Signed : List Char → Bool → List Char → Prop where
  | bare (body : List Char) : Signed body false body
  | plus (body : List Char) : Signed ('+' :: body) false body
  | minus (body : List Char) : Signed ('-' :: body) true body

/-- At least one character, and all of them are figures from `0` to `9`. -/
def AreFigures (cs : List Char) : Prop := cs ≠ [] ∧ ∀ c ∈ cs, c.isDigit = true

/-- The number that figures stand for, the last one with the weight one. -/
def figuresValue (figures : List Char) : ℕ :=
  Nat.ofDigits 10 (figures.reverse.map fun c => c.toNat - '0'.toNat)

/-- The word is written as the integer `n`. -/
def WritesInteger (word : List Char) (n : ℤ) : Prop :=
  ∃ negative figures, Signed word negative figures ∧ AreFigures figures ∧
    n = if negative then -(figuresValue figures : ℤ) else figuresValue figures

/-- The word is written as a decimal with the magnitude `v`. -/
def WritesDecimal (word : List Char) (negative : Bool) (v : ℚ) : Prop :=
  ∃ whole fraction, Signed word negative (whole ++ '.' :: fraction) ∧ AreFigures whole ∧
    AreFigures fraction ∧ v = figuresValue whole + figuresValue fraction / 10 ^ fraction.length

/-! ## Reading -/

theorem readFigures_eq_figuresValue (figures : List Char) :
    readFigures figures = figuresValue figures :=
  readFigures_eq_ofDigits figures

/-- What the reader splits off is a sign, and the rest is the body. A word may start with a sign
even if it is no number, so this says nothing about the body yet. -/
theorem signed_splitSign (word : List Char) :
    Signed word (splitSign word).1 (splitSign word).2 := by
  unfold splitSign
  split
  · exact .plus _
  · exact .minus _
  · exact .bare _

/-- The other way round, the reader finds the sign that is written, if a figure comes next: without
a sign, the first figure must not be taken for one. -/
theorem splitSign_of_signed {word body : List Char} {negative : Bool}
    (h : Signed word negative body) (hbody : ∃ c cs, body = c :: cs ∧ c.isDigit = true) :
    splitSign word = (negative, body) := by
  obtain ⟨c, cs, rfl, hc⟩ := hbody
  cases h with
  | bare => exact splitSign_cons_of_isDigit hc cs
  | plus | minus => rfl

/-- Figures start with a figure, which is what the reader asks for behind a sign. -/
theorem AreFigures.exists_cons {cs : List Char} (h : AreFigures cs) :
    ∃ c ds, cs = c :: ds ∧ c.isDigit = true := by
  obtain ⟨c, ds, rfl⟩ := List.exists_cons_of_ne_nil h.1
  exact ⟨c, ds, rfl, h.2 c List.mem_cons_self⟩

theorem AreFigures.exists_cons_append {cs : List Char} (h : AreFigures cs) (rest : List Char) :
    ∃ c ds, cs ++ rest = c :: ds ∧ c.isDigit = true := by
  obtain ⟨c, ds, rfl, hc⟩ := h.exists_cons
  exact ⟨c, ds ++ rest, rfl, hc⟩

/-- Of an integer the value is read, if it has 64 bits. Otherwise none is read, and the word is a
text: it does not become a floating-point number. -/
theorem readNumber?_of_writesInteger {word : List Char} {n : ℤ} (h : WritesInteger word n) :
    readNumber? word = if -2 ^ 63 ≤ n ∧ n ≤ 2 ^ 63 - 1 then some (.integer n) else none := by
  obtain ⟨negative, figures, hsigned, hfigures, hn⟩ := h
  have hsign : splitSign word = (negative, figures) :=
    splitSign_of_signed hsigned hfigures.exists_cons
  -- all figures belong to the whole part, and nothing follows it
  have htake : figures.takeWhile Char.isDigit = figures :=
    List.takeWhile_eq_self_iff.2 hfigures.2
  have hdrop : figures.dropWhile Char.isDigit = [] := List.dropWhile_eq_nil_iff.2 hfigures.2
  have hvalue : n = if negative then -(readFigures figures : ℤ) else readFigures figures := by
    rw [hn, readFigures_eq_figuresValue]
  unfold readNumber?
  simp only [hsign, htake, hdrop, List.isEmpty_iff, hfigures.1, if_false, ← hvalue]
  rfl

/-- Of a decimal the nearest floating-point number is read, if it is finite. The nearest one is not
finite from the rounding limit on, and such a word is a text. -/
theorem readNumber?_of_writesDecimal {word : List Char} {negative : Bool} {v : ℚ}
    (h : WritesDecimal word negative v) :
    ∃ n, Binary64.Nearest v n ∧ readNumber? word =
      if n < Binary64.infiniteMagnitude then some (.float (.ofMagnitude negative n)) else none := by
  obtain ⟨whole, fraction, hsigned, hwhole, hfraction, hv⟩ := h
  have hsign : splitSign word = (negative, whole ++ '.' :: fraction) :=
    splitSign_of_signed hsigned (hwhole.exists_cons_append _)
  have htake : (whole ++ '.' :: fraction).takeWhile Char.isDigit = whole := by
    rw [List.takeWhile_append_of_pos hwhole.2, List.takeWhile_cons_of_neg (by decide),
      List.append_nil]
  have hdrop : (whole ++ '.' :: fraction).dropWhile Char.isDigit = '.' :: fraction := by
    rw [List.dropWhile_append_of_pos hwhole.2, List.dropWhile_cons_of_neg (by decide)]
  -- the figures are read as one number, and the point is a power of ten
  have hvalue : (readFigures (whole ++ fraction) : ℚ) * 10 ^ (-(fraction.length : ℤ)) = v := by
    rw [readFigures_append, readFigures_eq_figuresValue, readFigures_eq_figuresValue, hv, zpow_neg,
      zpow_natCast]
    push_cast
    field_simp
  obtain ⟨n, hn, hround⟩ := Binary64.exists_nearest_ofScientific negative
    (readFigures (whole ++ fraction)) (-(fraction.length : ℤ))
  rw [hvalue] at hn
  refine ⟨n, hn, ?_⟩
  have hall : (!fraction.isEmpty && fraction.all Char.isDigit) = true := by
    simpa [List.all_eq_true, AreFigures] using hfraction
  unfold readNumber?
  simp only [hsign, htake, hdrop, List.isEmpty_iff, hwhole.1, if_false, hall, if_true, hround,
    Binary64.isFinite_ofMagnitude]

/-- Only from these two forms a number is read. So exponents, separators and the names of infinities
make no number. -/
theorem writes_of_readNumber? {word : List Char} (h : readNumber? word ≠ none) :
    (∃ n, WritesInteger word n) ∨ ∃ negative v, WritesDecimal word negative v := by
  have hsigned := signed_splitSign word
  unfold readNumber? at h
  generalize splitSign word = signed at h hsigned
  obtain ⟨negative, body⟩ := signed
  have hbody : body.takeWhile Char.isDigit ++ body.dropWhile Char.isDigit = body :=
    List.takeWhile_append_dropWhile
  simp only at h hsigned
  split at h
  · exact absurd rfl h
  next hwhole =>
  -- there is a whole part; behind it comes nothing, a point, or something else
  have hfigures : AreFigures (body.takeWhile Char.isDigit) :=
    ⟨by simpa [List.isEmpty_iff] using hwhole, fun c hc => List.mem_takeWhile_imp hc⟩
  split at h
  next hrest =>
    rw [hrest, List.append_nil] at hbody
    rw [hbody] at hfigures
    exact .inl ⟨_, negative, body, hsigned, hfigures, rfl⟩
  next fraction hrest =>
    split at h
    next hfraction =>
      rw [← hbody, hrest] at hsigned
      have : AreFigures fraction := by
        simpa [AreFigures, List.all_eq_true] using hfraction
      exact .inr ⟨negative, _, _, fraction, hsigned, hfigures, this, rfl⟩
    next => exact absurd rfl h
  next => exact absurd rfl h

/-- An integer is read from the words that are written as it, if its type can hold it. A decimal is
never read as an integer, even if its value is one. -/
theorem readNumber?_eq_integer_iff {word : List Char} {n : ℤ} :
    readNumber? word = some (.integer n) ↔
      WritesInteger word n ∧ -2 ^ 63 ≤ n ∧ n ≤ 2 ^ 63 - 1 := by
  constructor
  · intro h
    rcases writes_of_readNumber? (by rw [h]; simp) with ⟨m, hm⟩ | ⟨negative, v, hv⟩
    · rw [readNumber?_of_writesInteger hm] at h
      split at h
      next hrange =>
        cases h
        exact ⟨hm, hrange⟩
      next => cases h
    -- a decimal gives a floating-point number or none
    · obtain ⟨m, -, hread⟩ := readNumber?_of_writesDecimal hv
      rw [hread] at h
      split at h <;> cases h
  · intro ⟨hword, hrange⟩
    rw [readNumber?_of_writesInteger hword, if_pos hrange]

/-- A floating-point number is read from the decimals whose nearest number it is, as long as this is
not infinity. The sign is the one that is written, also that of a zero. -/
theorem readNumber?_eq_float_iff {word : List Char} {x : Binary64} :
    readNumber? word = some (.float x) ↔
      ∃ v, WritesDecimal word x.negative v ∧ v < Binary64.roundingLimit ∧ x.IsNearest v := by
  constructor
  · intro h
    rcases writes_of_readNumber? (by rw [h]; simp) with ⟨m, hm⟩ | ⟨negative, v, hv⟩
    · rw [readNumber?_of_writesInteger hm] at h
      split at h <;> cases h
    · obtain ⟨m, hm, hread⟩ := readNumber?_of_writesDecimal hv
      rw [hread] at h
      split at h
      next hfinite =>
        cases h
        refine ⟨v, hv, hm.lt_infiniteMagnitude_iff.1 hfinite,
          (Binary64.isNearest_iff hm hfinite).2 ?_⟩
        rw [Binary64.magnitude_ofMagnitude]
        omega
      next => cases h
  · intro ⟨v, hword, hv, hx⟩
    obtain ⟨m, hm, hread⟩ := readNumber?_of_writesDecimal hword
    -- the limit on the value is the limit on the rounded number
    have hfinite := hm.lt_infiniteMagnitude_iff.2 hv
    have hmagnitude := (Binary64.isNearest_iff hm hfinite).1 hx
    rw [hread, if_pos hfinite, ← hmagnitude, Binary64.ofMagnitude_magnitude]
    omega

/-- No number is read from a word that is none, and from a number that is out of range. -/
theorem readNumber?_eq_none_iff {word : List Char} :
    readNumber? word = none ↔
      (∀ n, WritesInteger word n → n < -2 ^ 63 ∨ 2 ^ 63 - 1 < n) ∧
        ∀ negative v, WritesDecimal word negative v → Binary64.roundingLimit ≤ v := by
  constructor
  · intro h
    refine ⟨fun n hn => ?_, fun negative v hv => ?_⟩
    · rw [readNumber?_of_writesInteger hn] at h
      split at h
      next => cases h
      next hrange => omega
    · obtain ⟨m, hm, hread⟩ := readNumber?_of_writesDecimal hv
      rw [hread] at h
      split at h
      next => cases h
      next hfinite => rwa [hm.lt_infiniteMagnitude_iff, not_lt] at hfinite
  · intro ⟨hinteger, hdecimal⟩
    by_contra hread
    rcases writes_of_readNumber? hread with ⟨n, hn⟩ | ⟨negative, v, hv⟩
    · rw [readNumber?_of_writesInteger hn] at hread
      have := hinteger n hn
      rw [if_neg (by omega)] at hread
      exact hread rfl
    · obtain ⟨m, hm, hread'⟩ := readNumber?_of_writesDecimal hv
      have := hdecimal negative v hv
      rw [hread', if_neg (by rwa [hm.lt_infiniteMagnitude_iff, not_lt])] at hread
      exact hread rfl

/-! ## Words -/

/-- Truth values come first, but none of them is a number, so they take no number away. -/
theorem ofWord_eq_number_iff {word : String} {n : Number} :
    ofWord word = .number n ↔ readNumber? word.toList = some n :=
  ⟨readNumber?_of_ofWord, ofWord_of_readNumber?⟩

/-- The truth values are two words, in lower case only. With another case, or with blanks, they are
texts. -/
theorem ofWord_eq_bool_iff {word : String} {b : Bool} :
    ofWord word = .bool b ↔ word = if b then "true" else "false" := by
  constructor
  · intro h
    unfold ofWord at h
    split at h
    next htrue =>
      cases h
      exact htrue
    next =>
      split at h
      next hfalse =>
        cases h
        exact hfalse
      next => split at h <;> cases h
  · intro h
    subst h
    cases b <;> rfl

/-- A word that is nothing else is a text, with all of its characters. -/
theorem ofWord_eq_text_iff {word text : String} :
    ofWord word = .text text ↔
      text = word ∧ word ≠ "true" ∧ word ≠ "false" ∧ readNumber? word.toList = none := by
  constructor
  · intro h
    unfold ofWord at h
    split at h
    next => cases h
    next htrue =>
      split at h
      next => cases h
      next hfalse =>
        split at h
        next => cases h
        next hread =>
          cases h
          exact ⟨rfl, htrue, hfalse, hread⟩
  · intro ⟨htext, htrue, hfalse, hread⟩
    simp only [ofWord, if_neg htrue, if_neg hfalse, hread, htext]

theorem ofWord_ne_list (word : String) (items : List Literal) : ofWord word ≠ .list items := by
  unfold ofWord
  split
  next => exact nofun
  next =>
    split
    next => exact nofun
    next => split <;> exact nofun

/-- **Every word has the type that its writing gives it.** -/
theorem ofWord_classified (word : String) :
    (∀ b, ofWord word = .bool b ↔ word = if b then "true" else "false") ∧
      (∀ n, ofWord word = .number (.integer n) ↔
        WritesInteger word.toList n ∧ -2 ^ 63 ≤ n ∧ n ≤ 2 ^ 63 - 1) ∧
      (∀ x, ofWord word = .number (.float x) ↔
        ∃ v, WritesDecimal word.toList x.negative v ∧ v < Binary64.roundingLimit ∧
          x.IsNearest v) ∧
      (∀ text, ofWord word = .text text ↔ text = word ∧ word ≠ "true" ∧ word ≠ "false" ∧
        (∀ n, WritesInteger word.toList n → n < -2 ^ 63 ∨ 2 ^ 63 - 1 < n) ∧
        ∀ negative v, WritesDecimal word.toList negative v → Binary64.roundingLimit ≤ v) ∧
      (∀ items, ofWord word ≠ .list items) ∧
      ∀ n : ℤ, -2 ^ 63 ≤ n → n ≤ 2 ^ 63 - 1 →
        ofWord (Number.writeInt n) = .number (.integer n) := by
  refine ⟨fun b => ofWord_eq_bool_iff, fun n => ?_, fun x => ?_, fun text => ?_,
    ofWord_ne_list word, fun n hmin hmax => ofWord_writeInt hmin hmax⟩
  · rw [ofWord_eq_number_iff, readNumber?_eq_integer_iff]
  · rw [ofWord_eq_number_iff, readNumber?_eq_float_iff]
  · rw [ofWord_eq_text_iff, readNumber?_eq_none_iff]

-- the least integer, with zeros in front the number after the greatest one, and an exponent
example :
    ofWord "-9223372036854775808" = .number (.integer (-2 ^ 63)) ∧
      ofWord "+0009223372036854775808" = .text "+0009223372036854775808" ∧
      ofWord "1.5e3" = .text "1.5e3" := by
  decide +kernel

end FilterQuery.Literal
