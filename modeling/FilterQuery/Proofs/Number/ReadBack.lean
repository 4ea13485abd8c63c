import FilterQuery.Json.Reader
import FilterQuery.Proofs.Literal.Classification

/-!
# Reading back the texts of numbers

A finite number is not lost in its text. The digits are those of a decimal that is rounded to the
number again (`Binary64.nearest_shortest`), whether it was found on a grid or is the exact value.
Both layouts, with a point only or with an exponent, are texts of one form (`Notation.Scientific`),
and the value of such a text can be read from it (`Notation.Scientific.denoted_eq`). So two numbers
with the same digits are nearest to the same value, and there is only one nearest number. The sign
is the first character (`Notation.head?_write`), and in JSON texts a point or an exponent tells a
floating-point number from an integer: `Number.write_json_inj`.
-/

namespace FilterQuery

open Literal (readFigures splitSign AreFigures)
open Notation (zeros)

/-! ## Decimals -/

theorem readFigures_zeros (n : ℕ) : readFigures (zeros n) = 0 := by
  induction n with
  | zero => rfl
  | succ n ih =>
    have hsnoc : zeros (n + 1) = zeros n ++ ['0'] := List.replicate_succ'
    rw [hsnoc, Literal.readFigures_append, ih, Nat.zero_mul]
    rfl

/-- Zeros behind figures shift them to the left. -/
theorem readFigures_append_zeros (figures : List Char) (n : ℕ) :
    readFigures (figures ++ zeros n) = readFigures figures * 10 ^ n := by
  rw [Literal.readFigures_append, readFigures_zeros, Nat.add_zero, zeros, List.length_replicate]

/-- Zeros in front of figures do not count. -/
theorem readFigures_zeros_append (n : ℕ) (figures : List Char) :
    readFigures (zeros n ++ figures) = readFigures figures := by
  rw [Literal.readFigures_append, readFigures_zeros, Nat.zero_mul, Nat.zero_add]

theorem isDigit_of_mem_zeros {n : ℕ} {c : Char} (h : c ∈ zeros n) : c.isDigit = true := by
  rw [List.eq_of_mem_replicate h]
  rfl

/-- The figures of a number are at least one, and nothing but figures. -/
theorem areFigures_toDigits (n : ℕ) : AreFigures (Nat.toDigits 10 n) :=
  ⟨Nat.toDigits_ne_nil, fun _ hc => Nat.isDigit_of_mem_toDigits (by decide) (by decide) hc⟩

theorem areFigures_zero : AreFigures ['0'] := areFigures_toDigits 0

namespace Decimal

/-- The number that a decimal denotes. -/
def toRat (d : Decimal) : ℚ := readFigures d.figures * 10 ^ (d.exponent + 1 - d.figures.length)

/-- Only zeros are cut off at the end. So what is cut off can be put back by the exponent. -/
theorem exists_trimmed (figures : List Char) :
    ∃ n, (figures.reverse.dropWhile (· == '0')).reverse ++ zeros n = figures := by
  -- what is cut off at the end is the beginning of the reversed figures
  have htake : figures.reverse.takeWhile (· == '0') =
      zeros (figures.reverse.takeWhile (· == '0')).length := by
    refine List.eq_replicate_iff.2 ⟨rfl, fun c hc => ?_⟩
    simpa using List.mem_takeWhile_imp hc
  refine ⟨(figures.reverse.takeWhile (· == '0')).length, List.reverse_injective ?_⟩
  have hreverse (n : ℕ) : (zeros n).reverse = zeros n := List.reverse_replicate
  rw [List.reverse_append, List.reverse_reverse, hreverse, ← htake,
    List.takeWhile_append_dropWhile]

/-- The figures of a decimal are figures also after the zeros at their end are gone; a zero keeps
one of them. -/
theorem areFigures_ofScaled (n : ℕ) (k : ℤ) : AreFigures (ofScaled n k).figures := by
  obtain ⟨zeroCount, htrimmed⟩ := exists_trimmed (Nat.toDigits 10 n)
  unfold ofScaled
  simp only
  split
  next => exact areFigures_zero
  next hne =>
    refine ⟨by simpa [List.isEmpty_iff] using hne, fun c hc => (areFigures_toDigits n).2 c ?_⟩
    rw [← htrimmed]
    exact List.mem_append_left _ hc

/-- To cut off zeros does not change the number, because the exponent counts from the first figure.
-/
theorem toRat_ofScaled (n : ℕ) (k : ℤ) : (ofScaled n k).toRat = n * 10 ^ k := by
  obtain ⟨zeroCount, htrimmed⟩ := exists_trimmed (Nat.toDigits 10 n)
  have hvalue := Literal.readFigures_toDigits n
  unfold ofScaled
  simp only
  generalize (List.dropWhile (· == '0') (Nat.toDigits 10 n).reverse).reverse = trimmed at *
  rw [← htrimmed, readFigures_append_zeros] at hvalue
  split
  -- nothing but zeros: the number is zero
  next hempty =>
    rw [List.isEmpty_iff.1 hempty] at hvalue
    simp [toRat, ← hvalue, readFigures]
  next =>
    -- the length counts the zeros that are gone, and the power of ten puts them back
    have hlength : ((Nat.toDigits 10 n).length : ℤ) = trimmed.length + zeroCount := by
      rw [← htrimmed, List.length_append, zeros, List.length_replicate]
      push_cast
      rfl
    have hexponent : ((Nat.toDigits 10 n).length : ℤ) - 1 + k + 1 - trimmed.length =
        zeroCount + k := by omega
    simp only [toRat, hexponent]
    rw [zpow_add₀ (by norm_num), zpow_natCast, ← hvalue]
    push_cast
    ring

end Decimal

namespace Binary64

/-- The exact decimal of a floating-point number: halves become fives and tens. Every such number
has a finite decimal, though a long one, which is why there is a shortest one at all. -/
theorem exactScaled_value (x : Binary64) :
    (x.exactScaled.1 : ℚ) * 10 ^ x.exactScaled.2 = x.absRat := by
  unfold exactScaled
  split
  next n hexponent =>
    rw [absRat_of_exponent_ofNat hexponent, zpow_zero, mul_one]
    rfl
  next n hexponent =>
    -- each halving is five tenths
    have hvalue := absRat_mul_of_exponent_negSucc hexponent
    show ((x.significand * 5 ^ (n + 1) : ℕ) : ℚ) * 10 ^ Int.negSucc n = x.absRat
    rw [zpow_negSucc, show (10 : ℚ) = 2 * 5 by norm_num, mul_pow, ← div_eq_mul_inv]
    push_cast
    rw [← hvalue]
    field_simp

/-- If a decimal is read as the number, the number is nearest to the decimal: reading is rounding.
-/
theorem nearest_of_magnitude_ofScientific {x : Binary64} (hx : x.isFinite = true) {c : ℕ} {k : ℤ}
    (h : (ofScientific false c k).magnitude = x.magnitude) :
    Nearest (c * 10 ^ k) x.magnitude.val := by
  have hfinite : x.magnitude.val < infiniteMagnitude := by simpa [isFinite] using hx
  obtain ⟨n, hn, hround⟩ := exists_nearest_ofScientific false c k
  have hmagnitude := congrArg Fin.val h
  rw [hround, magnitude_ofMagnitude] at hmagnitude
  have hsame : n = x.magnitude.val := by omega
  exact hsame ▸ hn

/-- The digits of a finite number are rounded to this number. The search stops at the first number
of digits with this property, and it comes to one, since the exact digits have it. -/
theorem nearest_shortest (tie : TieRule) {x : Binary64} (hx : x.isFinite = true) :
    Nearest (x.shortest tie).toRat x.magnitude.val := by
  unfold shortest
  simp only [Decimal.toRat_ofScaled]
  generalize hhit : List.findSome? _ (List.range 17) = hit
  cases hit with
  -- no short decimal is read back: the exact one is taken
  | none =>
    simp only [Option.getD_none, exactScaled_value, absRat_eq_gridValue]
    exact nearest_gridValue _
  -- the first grid with a decimal that is read back
  | some scaled =>
    obtain ⟨i, -, hi⟩ := List.exists_of_findSome?_eq_some hhit
    obtain ⟨c, hc, rfl⟩ := Option.map_eq_some_iff.1 hi
    exact nearest_of_magnitude_ofScientific hx (magnitude_of_readsBackOn? hc)

end Binary64

/-! ## Values of texts -/

namespace Notation

/-- The characters before the first mark and those behind it. -/
def cut (mark : Char) (cs : List Char) : List Char × List Char :=
  (cs.takeWhile (· != mark), (cs.dropWhile (· != mark)).tail)

/-- The number that figures denote, with a point between them or without one. -/
def pointValue (cs : List Char) : ℚ :=
  let (whole, fraction) := cut '.' cs
  readFigures (whole ++ fraction) / 10 ^ fraction.length

/-- The number that figures denote behind an optional sign. -/
def signedValue (cs : List Char) : ℤ :=
  let (negative, figures) := splitSign cs
  if negative then -(readFigures figures : ℤ) else readFigures figures

/-- The number that a text denotes: the part before the `e`, scaled by the power of ten that stands
behind it. -/
def denoted (cs : List Char) : ℚ :=
  let (mantissa, power) := cut 'e' cs
  pointValue mantissa * 10 ^ signedValue power

/-- A text is cut at the first mark, of which there is none in the part before. -/
theorem cut_append {mark : Char} {left : List Char} (h : ∀ c ∈ left, c ≠ mark)
    (right : List Char) : cut mark (left ++ mark :: right) = (left, right) := by
  have hleft : ∀ c ∈ left, (c != mark) = true := by simpa using h
  unfold cut
  rw [List.takeWhile_append_of_pos hleft, List.takeWhile_cons_of_neg (by simp), List.append_nil,
    List.dropWhile_append_of_pos hleft, List.dropWhile_cons_of_neg (by simp), List.tail_cons]

theorem cut_self {mark : Char} {cs : List Char} (h : ∀ c ∈ cs, c ≠ mark) :
    cut mark cs = (cs, []) := by
  have hcs : ∀ c ∈ cs, (c != mark) = true := by simpa using h
  unfold cut
  rw [List.takeWhile_eq_self_iff.2 hcs, List.dropWhile_eq_nil_iff.2 hcs, List.tail_nil]

theorem ne_of_isDigit {c d : Char} (hc : c.isDigit = true) (hd : d.isDigit = false) : c ≠ d := by
  intro h
  rw [h, hd] at hc
  cases hc

/-- Figures with a point between them or without one, which denote the number `v`. -/
inductive Positional (v : ℚ) : List Char → Prop where
  | whole {figures : List Char} (h : AreFigures figures) (hv : readFigures figures = v) :
      Positional v figures
  | point {whole fraction : List Char} (hwhole : AreFigures whole) (hfraction : AreFigures fraction)
      (hv : readFigures (whole ++ fraction) / 10 ^ fraction.length = v) :
      Positional v (whole ++ '.' :: fraction)

namespace Positional

variable {v : ℚ} {cs : List Char} (h : Positional v cs)
include h

/-- The value of a positional text can be read from it, with its point or without one. Both layouts
of a mantissa are covered by it, with zeros filled in on either side of the figures. -/
theorem pointValue_eq : pointValue cs = v := by
  unfold pointValue
  cases h with
  | whole h hv =>
    rw [cut_self fun c hc => ne_of_isDigit (h.2 c hc) rfl]
    simpa using hv
  | point hwhole hfraction hv =>
    rw [cut_append fun c hc => ne_of_isDigit (hwhole.2 c hc) rfl]
    exact hv

theorem isDigit_or_point {c : Char} (hc : c ∈ cs) : c.isDigit = true ∨ c = '.' := by
  cases h with
  | whole h => exact .inl (h.2 c hc)
  | point hwhole hfraction =>
    rcases List.mem_append.1 hc with hc | hc
    · exact .inl (hwhole.2 c hc)
    · rcases List.mem_cons.1 hc with hc | hc
      · exact .inr hc
      · exact .inl (hfraction.2 c hc)

/-- A positional text has no exponent, so the first `e` of a text ends its mantissa. So the text of
a number can be cut there without looking further. -/
theorem ne_exponentMark {c : Char} (hc : c ∈ cs) : c ≠ 'e' := by
  rcases h.isDigit_or_point hc with hdigit | rfl
  · exact ne_of_isDigit hdigit rfl
  · decide

theorem exists_cons : ∃ c ds, cs = c :: ds ∧ c.isDigit = true := by
  cases h with
  | whole h => exact h.exists_cons
  | point hwhole => exact hwhole.exists_cons_append _

end Positional

/-- A positional text, or one that is scaled by a written power of ten, which denotes the number
`v`. -/
inductive Scientific (v : ℚ) : List Char → Prop where
  | plain {cs : List Char} (h : Positional v cs) : Scientific v cs
  | scaled {mantissa power : List Char} {m : ℚ} (h : Positional m mantissa)
      (hpower : ∀ c ∈ power, c.isDigit = true ∨ c = '+' ∨ c = '-')
      (hv : m * 10 ^ signedValue power = v) : Scientific v (mantissa ++ 'e' :: power)

namespace Scientific

variable {v : ℚ} {cs : List Char} (h : Scientific v cs)
include h

/-- The value of a scientific text can be read from it. So two numbers with one text have digits of
the same value. -/
theorem denoted_eq : denoted cs = v := by
  unfold denoted
  cases h with
  | plain h =>
    rw [cut_self fun c => h.ne_exponentMark]
    show pointValue cs * 10 ^ (0 : ℤ) = v
    rw [h.pointValue_eq, zpow_zero, mul_one]
  | scaled h hpower hv =>
    rw [cut_append fun c => h.ne_exponentMark]
    simp only [h.pointValue_eq, hv]

theorem exists_cons : ∃ c ds, cs = c :: ds ∧ c.isDigit = true := by
  cases h with
  | plain h => exact h.exists_cons
  | scaled h =>
    obtain ⟨c, ds, rfl, hc⟩ := h.exists_cons
    exact ⟨c, _, rfl, hc⟩

/-- A scientific text holds only characters that a reader of JSON takes into a number. -/
theorem isNumberChar {c : Char} (hc : c ∈ cs) : Json.isNumberChar c = true := by
  have hpositional {m : ℚ} {ds : List Char} (h : Positional m ds) (hc : c ∈ ds) :
      Json.isNumberChar c = true := by
    rcases h.isDigit_or_point hc with hdigit | rfl
    · simp [Json.isNumberChar, hdigit]
    · rfl
  cases h with
  | plain h => exact hpositional h hc
  | scaled h hpower =>
    rcases List.mem_append.1 hc with hc | hc
    · exact hpositional h hc
    · rcases List.mem_cons.1 hc with rfl | hc
      · rfl
      · rcases hpower c hc with hdigit | rfl | rfl
        · simp [Json.isNumberChar, hdigit]
        · rfl
        · rfl

end Scientific

/-- An exponent that is written with a plus sign is read back. -/
theorem signedValue_plus (n : ℕ) : signedValue ('+' :: Nat.toDigits 10 n) = n := by
  show (readFigures (Nat.toDigits 10 n) : ℤ) = n
  rw [Literal.readFigures_toDigits]

theorem signedValue_minus (n : ℕ) : signedValue ('-' :: Nat.toDigits 10 n) = -n := by
  show -(readFigures (Nat.toDigits 10 n) : ℤ) = -n
  rw [Literal.readFigures_toDigits]

/-- An integer that is written without a sign is read back: its first figure is not taken for one.
-/
theorem signedValue_toDigits (n : ℕ) : signedValue (Nat.toDigits 10 n) = n := by
  obtain ⟨c, cs, hcs, hc⟩ := (areFigures_toDigits n).exists_cons
  unfold signedValue
  rw [hcs, Literal.splitSign_cons_of_isDigit hc, ← hcs]
  show (readFigures (Nat.toDigits 10 n) : ℤ) = n
  rw [Literal.readFigures_toDigits]

theorem div_ten_pow {m : ℕ} {k : ℤ} (h : k = -m) (v : ℚ) : v / 10 ^ m = v * 10 ^ k := by
  rw [h, zpow_neg, zpow_natCast, div_eq_mul_inv]

/-! ## Layouts -/

/-- The positional layout of a decimal denotes the decimal. The exponent decides where the point
stands: in front of all figures, behind all of them, or between two of them. -/
theorem positional_writePositional {d : Decimal} (hd : AreFigures d.figures) (keepPoint : Bool) :
    Positional d.toRat (writePositional keepPoint d) := by
  obtain ⟨figures, exponent⟩ := d
  unfold writePositional Decimal.toRat
  cases exponent with
  | negSucc n =>
    -- zeros before the figures, the first of them in front of the point
    have hzeros : ['0'] ++ (zeros n ++ figures) = zeros (n + 1) ++ figures := rfl
    refine .point areFigures_zero ⟨?_, fun c hc => ?_⟩ ?_
    · simpa using fun _ => hd.1
    · exact (List.mem_append.1 hc).elim isDigit_of_mem_zeros (hd.2 c)
    · rw [hzeros, readFigures_zeros_append]
      refine div_ten_pow ?_ _
      rw [List.length_append, zeros, List.length_replicate]
      dsimp only
      omega
  | ofNat n =>
    simp only [Int.ofNat_eq_natCast]
    split
    next hle =>
      -- zeros behind the figures, and perhaps one more behind the point
      have hwhole : AreFigures (figures ++ zeros (n + 1 - figures.length)) :=
        ⟨by simp [hd.1], fun c hc => (List.mem_append.1 hc).elim (hd.2 c) isDigit_of_mem_zeros⟩
      have hvalue : (readFigures (figures ++ zeros (n + 1 - figures.length)) : ℚ) =
          readFigures figures * 10 ^ ((n : ℤ) + 1 - figures.length) := by
        have hpower : (n : ℤ) + 1 - figures.length = (n + 1 - figures.length : ℕ) := by omega
        rw [readFigures_append_zeros, hpower, zpow_natCast]
        push_cast
        rfl
      cases keepPoint with
      | false =>
        rw [if_neg Bool.false_ne_true, List.append_nil]
        exact .whole hwhole hvalue
      | true =>
        rw [if_pos rfl]
        refine .point hwhole areFigures_zero ?_
        rw [← hvalue, show ['0'] = zeros 1 from rfl, readFigures_append_zeros]
        simp [zeros]
    next hlt =>
      -- the point between the figures
      have htake : AreFigures (figures.take (n + 1)) :=
        ⟨by simpa using hd.1, fun c hc => hd.2 c (List.mem_of_mem_take hc)⟩
      refine .point htake ⟨?_, fun c hc => hd.2 c (List.mem_of_mem_drop hc)⟩ ?_
      · simpa using hlt
      · rw [List.take_append_drop]
        refine div_ten_pow ?_ _
        rw [List.length_drop]
        omega

/-- The power of ten as it is written behind the `e`. -/
def writePower (k : ℤ) : List Char := (if k < 0 then '-' else '+') :: Nat.toDigits 10 k.natAbs

/-- The written power of ten is the exponent. -/
theorem signedValue_writePower (k : ℤ) : signedValue (writePower k) = k := by
  unfold writePower
  split
  next hk =>
    rw [signedValue_minus]
    omega
  next hk =>
    rw [signedValue_plus]
    omega

theorem isDigit_or_sign_of_mem_writePower {k : ℤ} {c : Char} (h : c ∈ writePower k) :
    c.isDigit = true ∨ c = '+' ∨ c = '-' := by
  rcases List.mem_cons.1 h with h | h
  · right
    split at h
    · exact .inr h
    · exact .inl h
  · exact .inl ((areFigures_toDigits k.natAbs).2 c h)

/-- In the other layout the figures are written as if the exponent were zero. -/
theorem writeExponent_eq {d : Decimal} (h : d.figures ≠ []) :
    writeExponent d = writePositional false ⟨d.figures, 0⟩ ++ 'e' :: writePower d.exponent := by
  obtain ⟨figures, exponent⟩ := d
  obtain ⟨lead, more, rfl⟩ := List.exists_cons_of_ne_nil h
  cases more <;> cases exponent <;>
    simp [writeExponent, writePositional, writePower, zeros, Int.negSucc_lt_zero]

/-- The layout with an exponent denotes the decimal: one figure stands before the point, and the
exponent makes up for it. -/
theorem scientific_writeExponent {d : Decimal} (hd : AreFigures d.figures) :
    Scientific d.toRat (writeExponent d) := by
  have hmantissa : AreFigures (⟨d.figures, 0⟩ : Decimal).figures := hd
  rw [writeExponent_eq hd.1]
  refine .scaled (positional_writePositional hmantissa false)
    (fun c => isDigit_or_sign_of_mem_writePower) ?_
  -- the mantissa is the decimal with the exponent zero, and the powers of ten add up
  rw [signedValue_writePower, Decimal.toRat, Decimal.toRat, mul_assoc, ← zpow_add₀ (by norm_num)]
  congr 2
  ring

/-- Whichever layout a notation chooses, the text denotes the decimal. -/
theorem scientific_writeDecimal (style : Notation) {d : Decimal} (hd : AreFigures d.figures) :
    Scientific d.toRat (style.writeDecimal d) := by
  unfold writeDecimal
  split
  next => exact .plain (positional_writePositional hd _)
  next =>
    split
    next => exact .plain (positional_writePositional hd _)
    next => exact scientific_writeExponent hd

/-- A floating-point number in a JSON text has a point or an exponent. This is what keeps `1.0`
apart from `1` in a JSON text. -/
theorem mark_mem_writeDecimal_json (d : Decimal) :
    '.' ∈ json.writeDecimal d ∨ 'e' ∈ json.writeDecimal d := by
  show '.' ∈ (if -5 ≤ d.exponent ∧ d.exponent ≤ 15 then writePositional true d
      else writeExponent d) ∨
    'e' ∈ (if -5 ≤ d.exponent ∧ d.exponent ≤ 15 then writePositional true d else writeExponent d)
  split
  next =>
    left
    unfold writePositional
    split
    next => simp
    next =>
      dsimp only
      split <;> simp
  next =>
    right
    simp [writeExponent]

/-! ## Numbers -/

theorem areFigures_shortest (tie : TieRule) (x : Binary64) : AreFigures (x.shortest tie).figures :=
  Decimal.areFigures_ofScaled _ _

/-- The text of a finite number is its sign and the layout of its digits. -/
theorem toList_write (style : Notation) {x : Binary64} (hx : x.isFinite = true) :
    (style.write x).toList =
      (if x.negative then ['-'] else []) ++ style.writeDecimal (x.shortest style.tie) := by
  have hfinite : x.magnitude.val < Binary64.infiniteMagnitude := by
    simpa [Binary64.isFinite] using hx
  have hnan : ¬ x.isNaN = true := by
    simp only [Binary64.isNaN, decide_eq_true_iff]
    omega
  have hinfinite : ¬ x.isInfinite = true := by
    simp only [Binary64.isInfinite, beq_iff_eq]
    omega
  unfold write
  rw [if_neg hnan, if_neg hinfinite]
  cases x.negative <;> simp

/-- The sign of a finite number is the first character of its text. -/
theorem head?_write (style : Notation) {x : Binary64} (hx : x.isFinite = true) :
    (style.write x).toList.head? = some '-' ↔ x.negative = true := by
  obtain ⟨c, cs, hcs, hc⟩ :=
    (scientific_writeDecimal style (areFigures_shortest style.tie x)).exists_cons
  rw [toList_write style hx, hcs]
  cases x.negative with
  | true => exact iff_of_true rfl rfl
  | false =>
    refine iff_of_false (fun h => ?_) Bool.false_ne_true
    exact ne_of_isDigit hc rfl (Option.some.inj h)

/-- The text of a finite number determines the number. The sign is the first character, and what
follows it denotes the magnitude, whichever layout was chosen. -/
theorem write_inj (style : Notation) {x y : Binary64} (hx : x.isFinite = true)
    (hy : y.isFinite = true) (h : style.write x = style.write y) : x = y := by
  have hnegative : x.negative = y.negative := by
    rw [Bool.eq_iff_iff, ← head?_write style hx, ← head?_write style hy, h]
  have htext := congrArg String.toList h
  rw [toList_write style hx, toList_write style hy, hnegative, List.append_cancel_left_eq] at htext
  -- the same text denotes the same value, and only one number is nearest to it
  have hvalue : (x.shortest style.tie).toRat = (y.shortest style.tie).toRat := by
    rw [← (scientific_writeDecimal style (areFigures_shortest style.tie x)).denoted_eq,
      ← (scientific_writeDecimal style (areFigures_shortest style.tie y)).denoted_eq, htext]
  have hmagnitude : x.magnitude = y.magnitude := by
    have hnearest := Binary64.nearest_shortest style.tie hx
    rw [hvalue] at hnearest
    exact Fin.ext (hnearest.unique (Binary64.nearest_shortest style.tie hy))
  calc x = ⟨x.negative, x.magnitude⟩ := rfl
    _ = ⟨y.negative, y.magnitude⟩ := by rw [hnegative, hmagnitude]

end Notation

namespace Number

/-- Whether the number is an integer or a finite floating-point number. -/
def isFinite : Number → Bool
  | integer _ => true
  | float x => x.isFinite

/-- The text of an integer is read back as the integer. -/
theorem signedValue_writeInt (n : ℤ) : Notation.signedValue (writeInt n).toList = n := by
  cases n with
  | ofNat n =>
    rw [writeInt, String.toList_ofList]
    exact Notation.signedValue_toDigits n
  | negSucc n =>
    rw [writeInt, String.toList_ofList]
    exact Notation.signedValue_minus (n + 1)

/-- The text of an integer is figures, perhaps behind a minus sign. -/
theorem exists_writeInt (n : ℤ) :
    ∃ figures, AreFigures figures ∧
      ((writeInt n).toList = figures ∨ (writeInt n).toList = '-' :: figures) := by
  cases n with
  | ofNat n => exact ⟨_, areFigures_toDigits n, .inl String.toList_ofList⟩
  | negSucc n => exact ⟨_, areFigures_toDigits (n + 1), .inr String.toList_ofList⟩

/-- So it holds neither a point nor an exponent. -/
theorem isDigit_or_minus_of_mem_writeInt {n : ℤ} {c : Char} (h : c ∈ (writeInt n).toList) :
    c.isDigit = true ∨ c = '-' := by
  obtain ⟨figures, hfigures, htext | htext⟩ := exists_writeInt n
  · rw [htext] at h
    exact .inl (hfigures.2 c h)
  · rw [htext] at h
    rcases List.mem_cons.1 h with h | h
    · exact .inr h
    · exact .inl (hfigures.2 c h)

/-- The text of an integer is not the text of a floating-point number. An integer has neither a
point nor an exponent, and a floating-point number has one of them. -/
theorem writeInt_ne_write_json (n : ℤ) {x : Binary64} (hx : x.isFinite = true) :
    writeInt n ≠ Notation.json.write x := by
  intro h
  have hmark := Notation.mark_mem_writeDecimal_json (x.shortest Notation.json.tie)
  have hmem {c : Char} (hc : c ∈ Notation.json.writeDecimal (x.shortest Notation.json.tie)) :
      c.isDigit = true ∨ c = '-' := by
    apply isDigit_or_minus_of_mem_writeInt (n := n)
    rw [h, Notation.toList_write _ hx]
    exact List.mem_append_right _ hc
  rcases hmark with hmark | hmark
  · exact absurd (hmem hmark) (by decide)
  · exact absurd (hmem hmark) (by decide)

/-- The JSON text of a number determines the number. Integers and floating-point numbers are told
apart, and each kind is read back. -/
theorem write_json_inj {m n : Number} (hm : m.isFinite = true) (hn : n.isFinite = true)
    (h : m.write .json = n.write .json) : m = n := by
  cases m with
  | integer a =>
    cases n with
    | integer b =>
      have hvalue := congrArg (fun text => Notation.signedValue text.toList) h
      simp only [write, signedValue_writeInt] at hvalue
      rw [hvalue]
    -- the two kinds of numbers have no text in common
    | float y => exact absurd h (writeInt_ne_write_json a hn)
  | float x =>
    cases n with
    | integer b => exact absurd h.symm (writeInt_ne_write_json b hm)
    | float y => rw [Notation.write_inj .json hm hn h]

/-- The text of a number consists of the characters that a reader takes into a number. -/
theorem isNumberChar_of_mem_write_json {n : Number} (hn : n.isFinite = true) {c : Char}
    (h : c ∈ (n.write .json).toList) : Json.isNumberChar c = true := by
  cases n with
  | integer a =>
    rcases isDigit_or_minus_of_mem_writeInt h with hdigit | rfl
    · simp [Json.isNumberChar, hdigit]
    · rfl
  | float x =>
    rw [write, Notation.toList_write _ hn] at h
    rcases List.mem_append.1 h with h | h
    · cases hnegative : x.negative with
      | true =>
        rw [hnegative] at h
        rw [List.mem_singleton.1 h]
        rfl
      | false =>
        rw [hnegative] at h
        cases h
    · exact (Notation.scientific_writeDecimal _ (Notation.areFigures_shortest _ x)).isNumberChar h

/-- The text of a number starts with a figure or a minus. -/
theorem exists_cons_write_json {n : Number} (hn : n.isFinite = true) :
    ∃ c cs, (n.write .json).toList = c :: cs ∧ (c.isDigit = true ∨ c = '-') := by
  cases n with
  | integer a =>
    obtain ⟨figures, hfigures, htext | htext⟩ := exists_writeInt a
    · obtain ⟨c, cs, hcs, hc⟩ := hfigures.exists_cons
      exact ⟨c, cs, htext.trans hcs, .inl hc⟩
    · exact ⟨'-', figures, htext, .inr rfl⟩
  | float x =>
    obtain ⟨c, cs, hcs, hc⟩ :=
      (Notation.scientific_writeDecimal .json (Notation.areFigures_shortest .toEven x)).exists_cons
    rw [write, Notation.toList_write _ hn]
    cases x.negative with
    | true => exact ⟨'-', _, rfl, .inr rfl⟩
    | false => exact ⟨c, cs, hcs, .inl hc⟩

end Number

end FilterQuery
