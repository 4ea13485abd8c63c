import FilterQuery.Number
import Mathlib.Algebra.Order.Field.Basic
import Mathlib.Data.Nat.Factorization.Basic
import Mathlib.Data.Rat.Cast.Order
import Mathlib.Tactic.FieldSimp
import Mathlib.Tactic.Linarith
import Mathlib.Tactic.NormNum
import Mathlib.Tactic.Ring

/-!
# Which numbers their decimals keep

Numbers are compared by their decimals. Every integer is its decimal. The decimal of a
floating-point number is a whole number below `2 ^ 96`, or it has at most 28 places and a
coefficient below `2 ^ 52` (`magnitude?_range`). So the number can only be its decimal if it is of
this form itself, and then it is: `ofBinary64?_exact_iff`. A number of `2 ^ 96` and more has no
decimal (`magnitude?_eq_none_iff`), and any other one is rounded.

The conversion of such a number loses nothing on its way. A significand is a power of two times an
odd number; the halvings first use up the power of two (`clearHalves_two_pow_mul`) and then multiply
the odd number by five (`clearHalves_odd`), which never leaves the room of the coefficient because
the result is at most the coefficient that the number has (`five_pow_mul_le`).
-/

namespace FilterQuery

/-! ## Values -/

namespace Binary64

/-- The magnitude of a finite number. -/
def absRat (x : Binary64) : ℚ := x.significand * 2 ^ x.exponent

/-- The number that a finite floating-point number denotes. -/
def toRat (x : Binary64) : ℚ := if x.negative then -x.absRat else x.absRat

/-- A significand has 53 bits: the fraction, and the hidden bit above it. -/
theorem significand_lt (x : Binary64) : x.significand < 2 * hiddenBit := by
  have hfraction : x.magnitude.val % hiddenBit < hiddenBit := Nat.mod_lt _ (by decide)
  unfold significand
  simp only
  split <;> omega

/-- Only the two zeros have the significand zero. A normal number has the hidden bit in it. -/
theorem significand_eq_zero_iff (x : Binary64) : x.significand = 0 ↔ x.isZero = true := by
  have hhidden : 0 < hiddenBit := by decide
  have hdivision := Nat.div_add_mod x.magnitude.val hiddenBit
  unfold significand
  simp only [isZero, beq_iff_eq]
  split
  -- a subnormal number is its fraction
  next hfield =>
    rw [hfield, Nat.mul_zero, Nat.zero_add] at hdivision
    omega
  next hfield =>
    refine iff_of_false (by omega) fun hzero => hfield ?_
    rw [hzero, Nat.zero_div]

theorem absRat_of_isZero {x : Binary64} (h : x.isZero = true) : x.absRat = 0 := by
  rw [absRat, (significand_eq_zero_iff x).2 h, Nat.cast_zero, zero_mul]

theorem absRat_nonneg (x : Binary64) : 0 ≤ x.absRat := by
  unfold absRat
  exact mul_nonneg (Nat.cast_nonneg _) (zpow_nonneg (by norm_num) _)

/-- The sign does not show in the magnitude. So sign and magnitude of a comparison can be dealt with
one after the other. -/
theorem abs_toRat (x : Binary64) : |x.toRat| = x.absRat := by
  unfold toRat
  split
  · rw [abs_neg, abs_of_nonneg x.absRat_nonneg]
  · exact abs_of_nonneg x.absRat_nonneg

/-- A number whose exponent is not negative is whole. -/
theorem absRat_of_exponent_ofNat {x : Binary64} {n : ℕ} (h : x.exponent = .ofNat n) :
    x.absRat = (x.significand * 2 ^ n : ℕ) := by
  rw [absRat, h, Int.ofNat_eq_natCast, zpow_natCast]
  push_cast
  rfl

/-- A number with a negative exponent is its significand halved so many times; stated as a product,
which stays among the whole numbers. -/
theorem absRat_mul_of_exponent_negSucc {x : Binary64} {n : ℕ} (h : x.exponent = .negSucc n) :
    x.absRat * 2 ^ (n + 1) = x.significand := by
  rw [absRat, h, zpow_negSucc]
  field_simp

end Binary64

namespace Fixed

/-- The number that a decimal denotes. -/
def toRat (d : Fixed) : ℚ := d.units / one

/-- A whole number below the bound of coefficients, or a number with at most 28 places and a
coefficient below `2 ^ 52`. -/
def Keeps (q : ℚ) : Prop :=
  ∃ c left : ℕ, |q| * 10 ^ left = c ∧
    (left = 0 ∧ c < coefficientBound ∨ left ≤ places ∧ c < Binary64.hiddenBit)

/-! ## The form of the decimals -/

/-- The loop over halvings never leaves the room of the coefficient: it multiplies only if there is
room for the product. -/
theorem clearHalves_fst_lt {n b : ℕ} {e : ℤ} (h : b < coefficientBound) :
    (clearHalves n b e).1 < coefficientBound := by
  induction n generalizing b e with
  | zero => exact h
  | succ n ih =>
    rw [clearHalves]
    split
    next hodd => exact ih hodd.2
    next => exact ih (Nat.lt_of_le_of_lt (Nat.div_le_self _ _) h)

theorem clearDoubles?_fst_lt {n b : ℕ} {e : ℤ} (h : b < coefficientBound) {r : ℕ × ℤ}
    (hr : clearDoubles? n b e = some r) : r.1 < coefficientBound := by
  induction n generalizing b e with
  | zero =>
    rw [clearDoubles?] at hr
    cases hr
    exact h
  | succ n ih =>
    rw [clearDoubles?] at hr
    split at hr
    next hroom => exact ih hroom hr
    next =>
      split at hr
      next => cases hr
      next => exact ih (Nat.lt_of_le_of_lt (Nat.div_le_self _ _) h) hr

theorem clearTens?_lt {n b c : ℕ} (h : b < coefficientBound) (hc : clearTens? n b = some c) :
    c < coefficientBound := by
  induction n generalizing b with
  | zero =>
    rw [clearTens?] at hc
    cases hc
    exact h
  | succ n ih =>
    rw [clearTens?] at hc
    split at hc
    next hroom => exact ih hroom hc
    next => cases hc

/-- To drop a figure never makes a coefficient greater, although it may be rounded up. So a
coefficient that fits still fits after figures have been dropped. -/
theorem dropFigure_le (b : ℕ) : dropFigure b ≤ b := by
  unfold dropFigure
  split <;> omega

theorem dropExcess_le (n b : ℕ) : dropExcess n b ≤ b := by
  induction n generalizing b with
  | zero => exact Nat.le_refl b
  | succ n ih =>
    rw [dropExcess]
    split
    · exact Nat.zero_le b
    · exact (ih _).trans (dropFigure_le b)

/-- Figures are dropped until the coefficient is below `2 ^ 52` or no place is left. This is where
the precision of decimals with places comes from. -/
theorem dropNoise_range (n b : ℕ) :
    (dropNoise n b).1 ≤ b ∧ (dropNoise n b).2 ≤ n ∧
      ((dropNoise n b).2 = 0 ∨ (dropNoise n b).1 < Binary64.hiddenBit) := by
  induction n generalizing b with
  | zero => exact ⟨Nat.le_refl b, Nat.le_refl 0, .inl rfl⟩
  | succ n ih =>
    rw [dropNoise]
    split
    next =>
      obtain ⟨hle, hleft, hshort⟩ := ih (dropFigure b)
      exact ⟨hle.trans (dropFigure_le b), hleft.trans (Nat.le_succ n), hshort⟩
    next hsmall => exact ⟨Nat.le_refl b, Nat.le_refl _, .inr (Nat.lt_of_not_le hsmall)⟩

theorem significand_lt (x : Binary64) : x.significand < coefficientBound :=
  x.significand_lt.trans (by decide)

/-- The coefficient of an expanded number has 96 bits, before any figure has been dropped. The guard
on the exponents makes sure of it, and it is why large numbers have no decimal. -/
theorem expand?_fst_lt {x : Binary64} {r : ℕ × ℤ} (h : expand? x = some r) :
    r.1 < coefficientBound := by
  unfold expand? at h
  split at h
  next => cases h; exact clearHalves_fst_lt (significand_lt x)
  next => exact clearDoubles?_fst_lt (significand_lt x) h

/-- The form of every decimal that the conversion gives: a whole number with 96 bits, or at most 28
places with a coefficient below `2 ^ 52`. -/
theorem magnitude?_range {x : Binary64} {u : ℕ} (h : magnitude? x = some u) :
    ∃ c left : ℕ, u = c * 10 ^ (places - left) ∧
      (left = 0 ∧ c < coefficientBound ∨ left ≤ places ∧ c < Binary64.hiddenBit) := by
  have hpositive : 0 < coefficientBound := by decide
  unfold magnitude? at h
  split at h
  next => cases h; exact ⟨0, 0, by simp, .inl ⟨rfl, hpositive⟩⟩
  next =>
    split at h
    next => cases h
    -- whole: nothing is dropped
    next b n hexpand =>
      obtain ⟨c, hc, hu⟩ := Option.map_eq_some_iff.1 h
      have hlt := clearTens?_lt (expand?_fst_lt hexpand) hc
      exact ⟨c, 0, hu.symm, .inl ⟨rfl, hlt⟩⟩
    next b n hexpand =>
      -- with places: first those beyond the 28th go, then the noise
      cases h
      obtain ⟨hle, hleft, hshort⟩ :=
        dropNoise_range (min (n + 1) places) (dropExcess (n + 1 - min (n + 1) places) b)
      refine ⟨_, _, rfl, ?_⟩
      rcases hshort with hzero | hsmall
      · have hexcess := dropExcess_le (n + 1 - min (n + 1) places) b
        exact .inl ⟨hzero, (hle.trans hexcess).trans_lt (expand?_fst_lt hexpand)⟩
      · exact .inr ⟨hleft.trans (Nat.min_le_right _ _), hsmall⟩

/-! ## Conversions that lose nothing -/

/-- As long as the product fits, every step is a doubling that takes one of the tens away, and none
are left at the end. -/
theorem clearDoubles?_eq_some {n b : ℕ} (h : b * 2 ^ n < coefficientBound) :
    clearDoubles? n b n = some (b * 2 ^ n, 0) := by
  induction n generalizing b with
  | zero => simp [clearDoubles?]
  | succ n ih =>
    have hstep : b * 2 ^ (n + 1) = 2 * b * 2 ^ n := by ring
    have hroom : 2 * b < coefficientBound :=
      (Nat.le_mul_of_pos_right (2 * b) (Nat.two_pow_pos n)).trans_lt (hstep ▸ h)
    rw [clearDoubles?, if_pos hroom, hstep]
    have := ih (hstep ▸ h)
    push_cast
    rwa [add_sub_cancel_right]

/-- Factors of two are used up first, one for each halving, and each of them takes a place away. So
a whole number is left without places, even if its exponent is negative. -/
theorem clearHalves_two_pow_mul (j n b : ℕ) (e : ℤ) :
    clearHalves (j + n) (2 ^ j * b) e = clearHalves n b (e + j) := by
  induction j generalizing e with
  | zero => simp
  | succ j ih =>
    -- an even coefficient is halved, whether there is room or not
    have heven : 2 ^ (j + 1) * b = 2 * (2 ^ j * b) := by ring
    rw [show j + 1 + n = j + n + 1 by omega, clearHalves, heven, if_neg (by omega),
      Nat.mul_div_cancel_left _ Nat.two_pos, ih]
    congr 1
    push_cast
    ring

/-- An odd coefficient is multiplied by five at each halving, which leaves it odd and costs no
place. -/
theorem clearHalves_odd {n b : ℕ} (hodd : b % 2 = 1) (h : b * 5 ^ n < coefficientBound) (e : ℤ) :
    clearHalves n b e = (b * 5 ^ n, e) := by
  induction n generalizing b with
  | zero => simp [clearHalves]
  | succ n ih =>
    have hstep : b * 5 ^ (n + 1) = 5 * b * 5 ^ n := by ring
    have hroom : 5 * b < coefficientBound :=
      (Nat.le_mul_of_pos_right (5 * b) (Nat.pow_pos (by decide))).trans_lt (hstep ▸ h)
    rw [clearHalves, if_pos ⟨hodd, hroom⟩, hstep]
    exact ih (by omega) (hstep ▸ h)

/-- An odd number, halved `k` times, has at least `k` places. So a number with few places leaves
room for all the products with five. -/
theorem five_pow_mul_le {m c k left : ℕ} (hodd : m % 2 = 1) (h : m * 10 ^ left = c * 2 ^ k) :
    k ≤ left ∧ m * 5 ^ k ≤ c := by
  -- the twos on the right can only come from the tens on the left
  have hcoprime : Nat.Coprime (2 ^ k) (m * 5 ^ left) := by
    apply Nat.Coprime.pow_left
    rw [Nat.coprime_two_left, Nat.odd_mul]
    exact ⟨Nat.odd_iff.2 hodd, Odd.pow (by decide)⟩
  have hten : m * 10 ^ left = m * 5 ^ left * 2 ^ left := by
    rw [show 10 = 5 * 2 from rfl, Nat.mul_pow, Nat.mul_assoc]
  have hdvd : 2 ^ k ∣ 2 ^ left := by
    apply hcoprime.dvd_of_dvd_mul_left
    rw [← hten, h]
    exact Nat.dvd_mul_left _ _
  have hle : k ≤ left := (Nat.pow_dvd_pow_iff_le_right (by decide)).1 hdvd
  refine ⟨hle, ?_⟩
  have hc : c = m * 5 ^ left * 2 ^ (left - k) := by
    have hsplit : 2 ^ left = 2 ^ (left - k) * 2 ^ k := by rw [← Nat.pow_add, Nat.sub_add_cancel hle]
    rw [hten, hsplit, ← Nat.mul_assoc] at h
    exact (Nat.eq_of_mul_eq_mul_right (Nat.two_pow_pos k) h).symm
  calc m * 5 ^ k ≤ m * 5 ^ left := Nat.mul_le_mul_left _ (Nat.pow_le_pow_right (by decide) hle)
    _ ≤ m * 5 ^ left * 2 ^ (left - k) := Nat.le_mul_of_pos_right _ (Nat.two_pow_pos _)
    _ = c := hc.symm

theorem one_pos : (0 : ℚ) < one := by norm_num [one, places]

theorem one_eq_mul {k : ℕ} (h : k ≤ places) : (one : ℚ) = 10 ^ k * 10 ^ (places - k) := by
  rw [← pow_add, Nat.add_sub_of_le h]
  norm_num [one, places]

/-- An expanded number without a power of ten is a whole number of ones. -/
theorem magnitude?_whole {x : Binary64} (hx : x.isZero = false) {b : ℕ}
    (h : expand? x = some (b, 0)) : magnitude? x = some (b * one) := by
  rw [magnitude?, if_neg (by rw [hx]; exact Bool.false_ne_true), h]
  rfl

/-- An expanded number with few places and a small coefficient loses no figure. With at most 28
places and a coefficient below `2 ^ 52` there is neither excess nor noise to drop. -/
theorem magnitude?_places {x : Binary64} (hx : x.isZero = false) {b n : ℕ}
    (h : expand? x = some (b, .negSucc n)) (hn : n + 1 ≤ places) (hb : b < Binary64.hiddenBit) :
    magnitude? x = some (b * 10 ^ (places - (n + 1))) := by
  rw [magnitude?, if_neg (by rw [hx]; exact Bool.false_ne_true), h]
  simp only [Nat.min_eq_left hn, Nat.sub_self, dropExcess, dropNoise, if_neg (Nat.not_le.2 hb)]
  rfl

/-- The doublings of a number that fits into the coefficient. -/
theorem expand?_ofNat {x : Binary64} {n : ℕ} (h : x.exponent = .ofNat n)
    (hroom : x.significand * 2 ^ n < coefficientBound) :
    expand? x = some (x.significand * 2 ^ n, 0) := by
  unfold expand?
  rw [h]
  exact clearDoubles?_eq_some hroom

/-- The halvings of a number, after the factors of two of its significand are used up. -/
theorem expand?_negSucc {x : Binary64} {n j b : ℕ} (h : x.exponent = .negSucc n)
    (hx : x.significand = 2 ^ j * b) (hj : j ≤ n + 1) :
    expand? x = some (clearHalves (n + 1 - j) b (.negSucc n + j)) := by
  have hhalves := clearHalves_two_pow_mul j (n + 1 - j) b (.negSucc n)
  rw [Nat.add_sub_of_le hj] at hhalves
  unfold expand?
  rw [h, hx]
  exact congrArg some hhalves

/-- The significand has all the factors of two that the number is halved by: the number is whole.
Numbers like this are integers in spite of their exponent, and they are kept. -/
theorem magnitude?_of_two_pow_mul {x : Binary64} (hx : x.isZero = false) {n w : ℕ}
    (hexponent : x.exponent = .negSucc n) (hw : x.significand = 2 ^ (n + 1) * w) :
    ∃ u : ℕ, magnitude? x = some u ∧ (u : ℚ) = x.absRat * one := by
  have hvalue : x.absRat = w := by
    have := Binary64.absRat_mul_of_exponent_negSucc hexponent
    rw [hw, Nat.cast_mul, Nat.cast_pow, mul_comm] at this
    exact mul_left_cancel₀ (by norm_num) this
  have hexpand := expand?_negSucc hexponent hw (Nat.le_refl _)
  rw [Nat.sub_self, clearHalves, Int.negSucc_eq, Nat.cast_succ, neg_add_cancel] at hexpand
  refine ⟨_, magnitude?_whole hx hexpand, ?_⟩
  rw [hvalue, Nat.cast_mul]

section Kept

variable {x : Binary64} (hx : x.isZero = false) {c left : ℕ} (hc : x.absRat * 10 ^ left = c)
  (hshort : left = 0 ∧ c < coefficientBound ∨ left ≤ places ∧ c < Binary64.hiddenBit)

include hx hc hshort

/-- The exponent is not negative: the number is whole, and it fits because its coefficient does. -/
theorem magnitude?_of_exponent_ofNat {n : ℕ} (hexponent : x.exponent = .ofNat n) :
    ∃ u : ℕ, magnitude? x = some u ∧ (u : ℚ) = x.absRat * one := by
  have hvalue := Binary64.absRat_of_exponent_ofNat hexponent
  -- the number is not greater than its coefficient
  have hroom : x.significand * 2 ^ n < coefficientBound := by
    have hnat : x.significand * 2 ^ n * 10 ^ left = c := by
      rw [hvalue] at hc
      exact_mod_cast hc
    have hle : x.significand * 2 ^ n ≤ c :=
      hnat ▸ Nat.le_mul_of_pos_right _ (Nat.pow_pos (by decide))
    have hbound : Binary64.hiddenBit < coefficientBound := by decide
    omega
  refine ⟨_, magnitude?_whole hx (expand?_ofNat hexponent hroom), ?_⟩
  rw [hvalue, Nat.cast_mul]

/-- The significand is odd but for fewer factors of two than the number is halved: the odd part is
multiplied by five. -/
theorem magnitude?_of_odd {j k b : ℕ} (hexponent : x.exponent = .negSucc (j + k))
    (hodd : b % 2 = 1) (hb : x.significand = 2 ^ j * b) :
    ∃ u : ℕ, magnitude? x = some u ∧ (u : ℚ) = x.absRat * one := by
  have hvalue : x.absRat * 2 ^ (k + 1) = b := by
    have := Binary64.absRat_mul_of_exponent_negSucc hexponent
    rw [hb, Nat.cast_mul, Nat.cast_pow, Nat.add_assoc, pow_add, mul_left_comm] at this
    exact mul_left_cancel₀ (by norm_num) this
  have hnat : b * 10 ^ left = c * 2 ^ (k + 1) := by
    have : (b : ℚ) * 10 ^ left = c * 2 ^ (k + 1) := by rw [← hvalue, ← hc]; ring
    exact_mod_cast this
  -- the places are at least the halvings that are left
  obtain ⟨hplaces, hle⟩ := five_pow_mul_le hodd hnat
  have hsmall : left ≤ places ∧ c < Binary64.hiddenBit := by omega
  have hbound : Binary64.hiddenBit < coefficientBound := by decide
  have hexpand := expand?_negSucc hexponent hb (by omega)
  rw [show j + k + 1 - j = k + 1 by omega, clearHalves_odd hodd (by omega),
    show Int.negSucc (j + k) + j = Int.negSucc k by omega] at hexpand
  refine ⟨_, magnitude?_places hx hexpand (by omega) (by omega), ?_⟩
  have hten : (10 : ℚ) ^ (k + 1) = 2 ^ (k + 1) * 5 ^ (k + 1) := by
    rw [← mul_pow]
    norm_num
  rw [one_eq_mul (hplaces.trans hsmall.1), hten, ← mul_assoc, ← mul_assoc, hvalue]
  push_cast
  rfl

/-- The exponent is negative: what counts is whether the significand has enough factors of two for
all halvings. -/
theorem magnitude?_of_exponent_negSucc {n : ℕ} (hexponent : x.exponent = .negSucc n) :
    ∃ u : ℕ, magnitude? x = some u ∧ (u : ℚ) = x.absRat * one := by
  have hsignificand : x.significand ≠ 0 := by
    rw [Ne, Binary64.significand_eq_zero_iff, hx]
    exact Bool.false_ne_true
  -- the factors of two of the significand, and its odd part
  obtain ⟨j, b, hodd, hb⟩ := Nat.exists_eq_two_pow_mul_odd hsignificand
  rcases Nat.lt_or_ge n j with hj | hj
  · refine magnitude?_of_two_pow_mul hx hexponent (w := 2 ^ (j - (n + 1)) * b) ?_
    rw [hb, ← Nat.mul_assoc, ← Nat.pow_add, Nat.add_sub_of_le hj]
  · obtain ⟨k, rfl⟩ := Nat.exists_eq_add_of_le hj
    exact magnitude?_of_odd hx hc hshort hexponent (Nat.odd_iff.1 hodd) hb

end Kept

/-- The magnitude of a number is kept exactly if it has the form that decimals have. One direction
reads the form off the result, the other one follows the conversion. -/
theorem magnitude?_exact_iff (x : Binary64) :
    (∃ u : ℕ, magnitude? x = some u ∧ (u : ℚ) = x.absRat * one) ↔ Keeps x.absRat := by
  constructor
  · rintro ⟨u, hu, hvalue⟩
    obtain ⟨c, left, rfl, hshort⟩ := magnitude?_range hu
    -- the form of the result is the form of the number, which it equals
    have hleft : left ≤ places := by omega
    refine ⟨c, left, ?_, hshort⟩
    rw [abs_of_nonneg x.absRat_nonneg]
    rw [one_eq_mul hleft, Nat.cast_mul, Nat.cast_pow, ← mul_assoc] at hvalue
    exact (mul_right_cancel₀ (by norm_num) hvalue).symm
  · rintro ⟨c, left, hc, hshort⟩
    rw [abs_of_nonneg x.absRat_nonneg] at hc
    by_cases hx : x.isZero = true
    · refine ⟨0, by rw [magnitude?, if_pos hx], ?_⟩
      rw [Binary64.absRat_of_isZero hx, Nat.cast_zero, zero_mul]
    · have hx := eq_false_of_ne_true hx
      cases hexponent : x.exponent with
      | ofNat n => exact magnitude?_of_exponent_ofNat hx hc hshort hexponent
      | negSucc n => exact magnitude?_of_exponent_negSucc hx hc hshort hexponent

/-! ## Numbers without a decimal -/

/-- If the product does not fit, the loop ends without a result at the first doubling for which
there is no room, before anything is divided by five. -/
theorem clearDoubles?_eq_none {n b : ℕ} (hb : b < coefficientBound)
    (h : coefficientBound ≤ b * 2 ^ n) : clearDoubles? n b n = none := by
  induction n generalizing b with
  | zero => omega
  | succ n ih =>
    have hstep : b * 2 ^ (n + 1) = 2 * b * 2 ^ n := by ring
    rw [clearDoubles?]
    by_cases hroom : 2 * b < coefficientBound
    · have hrest := ih hroom (hstep ▸ h)
      rw [if_pos hroom, Nat.cast_succ, add_sub_cancel_right, hrest]
    · -- all doublings that are left would have to be paid for in tens
      rw [if_neg hroom, if_pos (by omega)]

/-- Each halving makes at most one ten, so a number with a negative exponent has no tens left over.
-/
theorem clearHalves_snd_le (n b : ℕ) (e : ℤ) : (clearHalves n b e).2 ≤ e + n := by
  induction n generalizing b e with
  | zero => simp [clearHalves]
  | succ n ih =>
    rw [clearHalves]
    split
    · have hle := ih (5 * b) e
      omega
    · have hle := ih (b / 2) (e + 1)
      omega

/-- A number with a negative exponent is small enough and always has a decimal. Its significand has
53 bits and it is halved at least once, so it is below `2 ^ 96` by far. -/
theorem magnitude?_ne_none_of_exponent_negSucc {x : Binary64} {n : ℕ}
    (h : x.exponent = .negSucc n) : magnitude? x ≠ none := by
  have hexpand : expand? x = some (clearHalves (n + 1) x.significand (.negSucc n)) := by
    unfold expand?
    rw [h]
  have htens := clearHalves_snd_le (n + 1) x.significand (.negSucc n)
  generalize clearHalves (n + 1) x.significand (.negSucc n) = r at hexpand htens
  obtain ⟨b, e⟩ := r
  unfold magnitude?
  rw [hexpand]
  cases e with
  | ofNat k =>
    -- no tens are left over
    have hk : k = 0 := by
      simp only [Int.ofNat_eq_natCast] at htens
      omega
    rw [hk]
    split <;> exact Option.some_ne_none _
  | negSucc k => split <;> exact Option.some_ne_none _

/-- A number has no decimal exactly if it is `2 ^ 96` or more, whatever its last figures are. What
is lost below that bound is figures, never the number as a whole. -/
theorem magnitude?_eq_none_iff (x : Binary64) :
    magnitude? x = none ↔ (coefficientBound : ℚ) ≤ x.absRat := by
  by_cases hx : x.isZero = true
  · have hpositive : (0 : ℚ) < coefficientBound := Nat.cast_pos.2 (by decide)
    rw [magnitude?, if_pos hx, Binary64.absRat_of_isZero hx]
    exact iff_of_false (Option.some_ne_none _) (not_le.2 hpositive)
  cases hexponent : x.exponent with
  | ofNat n =>
    rw [Binary64.absRat_of_exponent_ofNat hexponent, Nat.cast_le]
    rcases Nat.lt_or_ge (x.significand * 2 ^ n) coefficientBound with hroom | hlarge
    · rw [magnitude?_whole (eq_false_of_ne_true hx) (expand?_ofNat hexponent hroom)]
      exact iff_of_false (Option.some_ne_none _) (Nat.not_le.2 hroom)
    · refine iff_of_true ?_ hlarge
      have hnone : expand? x = none := by
        unfold expand?
        rw [hexponent]
        exact clearDoubles?_eq_none (significand_lt x) hlarge
      rw [magnitude?, if_neg hx, hnone]
  | negSucc n =>
    -- the number is less than its significand
    have hvalue := Binary64.absRat_mul_of_exponent_negSucc hexponent
    have hle : x.absRat ≤ x.significand := by
      rw [← hvalue]
      exact le_mul_of_one_le_right x.absRat_nonneg (one_le_pow₀ (by norm_num))
    have hlt : x.absRat < coefficientBound := hle.trans_lt (Nat.cast_lt.2 (significand_lt x))
    exact iff_of_false (magnitude?_ne_none_of_exponent_negSucc hexponent) (not_le.2 hlt)

/-- Of a finite number only the magnitude may be missing. -/
theorem ofBinary64?_of_isFinite {x : Binary64} (h : x.isFinite = true) :
    ofBinary64? x =
      (magnitude? x).map fun u : ℕ => ⟨if x.negative then -(u : ℤ) else (u : ℤ)⟩ := by
  rw [ofBinary64?, if_pos h]
  cases magnitude? x <;> rfl

/-- The sign of a decimal is the one of its number, so only the magnitudes count. Two zeros with
different signs have the same decimal, as they denote the same. -/
theorem toRat_eq_toRat_iff (x : Binary64) (u : ℕ) :
    toRat ⟨if x.negative then -(u : ℤ) else (u : ℤ)⟩ = x.toRat ↔ (u : ℚ) = x.absRat * one := by
  have hmagnitude : (u : ℚ) / one = x.absRat ↔ (u : ℚ) = x.absRat * one :=
    div_eq_iff one_pos.ne'
  rw [← hmagnitude]
  unfold toRat Binary64.toRat
  cases x.negative with
  | true =>
    rw [if_pos rfl, if_pos rfl, Int.cast_neg, Int.cast_natCast, neg_div]
    exact neg_inj
  | false =>
    rw [if_neg Bool.false_ne_true, if_neg Bool.false_ne_true, Int.cast_natCast]

/-- The decimal of a finite floating-point number is this number exactly if the number is whole and
below `2 ^ 96`, or has at most 28 places and a coefficient below `2 ^ 52`. -/
theorem ofBinary64?_exact_iff {x : Binary64} (hfinite : x.isFinite = true) :
    (∃ d, ofBinary64? x = some d ∧ d.toRat = x.toRat) ↔ Keeps x.toRat := by
  -- the form does not depend on the sign
  have hkeeps : Keeps x.toRat ↔ Keeps x.absRat := by
    unfold Keeps
    rw [x.abs_toRat, abs_of_nonneg x.absRat_nonneg]
  rw [hkeeps, ← magnitude?_exact_iff, ofBinary64?_of_isFinite hfinite]
  constructor
  · rintro ⟨d, hd, hvalue⟩
    obtain ⟨u, hu, rfl⟩ := Option.map_eq_some_iff.1 hd
    exact ⟨u, hu, (toRat_eq_toRat_iff x u).1 hvalue⟩
  · rintro ⟨u, hu, hvalue⟩
    exact ⟨_, Option.map_eq_some_iff.2 ⟨u, hu, rfl⟩, (toRat_eq_toRat_iff x u).2 hvalue⟩

/-- Infinities, "not a number" and numbers of `2 ^ 96` or more have no decimal, and all others have
one. -/
theorem ofBinary64?_eq_none_iff (x : Binary64) :
    ofBinary64? x = none ↔ x.isFinite = false ∨ (coefficientBound : ℚ) ≤ |x.toRat| := by
  cases hfinite : x.isFinite with
  | false => exact iff_of_true (by rw [ofBinary64?, hfinite]; rfl) (.inl rfl)
  | true =>
    rw [ofBinary64?_of_isFinite hfinite, Option.map_eq_none_iff, magnitude?_eq_none_iff,
      x.abs_toRat]
    exact (or_iff_right (by decide)).symm

/-- Every integer is its decimal, also beyond 96 bits. Only numbers that are given as floating-point
ones can lose figures. -/
theorem toRat_ofInt (n : ℤ) : (ofInt n).toRat = n := by
  rw [toRat, ofInt, Int.cast_mul, Int.cast_natCast, mul_div_cancel_right₀ _ one_pos.ne']

/-- Decimals are ordered as the numbers that they denote. -/
theorem compare_eq_cmp (a b : Fixed) : a.compare b = cmp a.toRat b.toRat := by
  have hmono : StrictMono fun u : ℤ => (u : ℚ) / one :=
    fun u v huv => div_lt_div_of_pos_right (Int.cast_lt.2 huv) one_pos
  rw [Fixed.compare, ← cmp_eq_compare]
  exact (hmono.cmp_map_eq a.units b.units).symm

/-- Decimals that are neither less nor greater are the same: one decimal has one number of units. So
a test for equality and a comparison cannot disagree. -/
theorem compare_eq_eq_iff {a b : Fixed} : a.compare b = .eq ↔ a = b := by
  rw [Fixed.compare, compare_eq_iff_eq, Fixed.mk.injEq]

end Fixed

/-! ## Numbers -/

namespace Number

/-- What a number denotes. -/
def toRat : Number → ℚ
  | integer n => n
  | float x => x.toRat

/-- The number is an integer, or a floating-point number of the form that decimals have. -/
def IsKept : Number → Prop
  | integer _ => True
  | float x => x.isFinite = true ∧ Fixed.Keeps x.toRat

/-- The number is a floating-point number beyond the coefficients of decimals. -/
def IsTooLarge : Number → Prop
  | integer _ => False
  | float x => x.isFinite = false ∨ (Fixed.coefficientBound : ℚ) ≤ |x.toRat|

/-- The decimal by which a number is compared denotes the same exactly if the number is kept. -/
theorem isKept_iff (n : Number) : n.IsKept ↔ ∃ d, n.toFixed? = some d ∧ d.toRat = n.toRat := by
  cases n with
  | integer n => exact iff_of_true trivial ⟨_, rfl, Fixed.toRat_ofInt n⟩
  | float x =>
    cases hfinite : x.isFinite with
    | true =>
      refine Iff.trans ?_ (Fixed.ofBinary64?_exact_iff hfinite).symm
      exact and_iff_right hfinite
    | false =>
      refine iff_of_false ?_ ?_
      · rintro ⟨h, -⟩
        exact Bool.false_ne_true (hfinite.symm.trans h)
      · rintro ⟨d, hd, -⟩
        rw [toFixed?, (Fixed.ofBinary64?_eq_none_iff x).2 (.inl hfinite)] at hd
        cases hd

/-- The numbers that are too large are those without a decimal. -/
theorem isTooLarge_iff (n : Number) : n.IsTooLarge ↔ n.toFixed? = none := by
  cases n with
  | integer n => exact iff_of_false id (Option.some_ne_none _)
  | float x => exact (Fixed.ofBinary64?_eq_none_iff x).symm

/-- Equality has a test of its own, which does not order the decimals, and comes to the same as the
outcome "equal" of the comparison. -/
theorem sameValue_iff_compare? (a b : Number) :
    a.sameValue b = true ↔ a.compare? b = some .eq := by
  unfold sameValue compare?
  cases a.toFixed? with
  | none => exact iff_of_false Bool.false_ne_true (Option.some_ne_none _).symm
  | some x =>
    cases b.toFixed? with
    | none => exact iff_of_false Bool.false_ne_true (Option.some_ne_none _).symm
    | some y => rw [beq_iff_eq, Option.some_inj, Fixed.compare_eq_eq_iff]

/-- Numbers that are kept are ordered as rational numbers. A number that is not kept is ordered as
its decimal is, which may be that of another number. -/
theorem compare?_of_isKept {a b : Number} (ha : a.IsKept) (hb : b.IsKept) :
    a.compare? b = some (cmp a.toRat b.toRat) := by
  obtain ⟨x, hx, hxa⟩ := a.isKept_iff.1 ha
  obtain ⟨y, hy, hyb⟩ := b.isKept_iff.1 hb
  rw [compare?, hx, hy, ← hxa, ← hyb, ← Fixed.compare_eq_cmp]

/-- A number that is too large is not ordered with any number, not even with itself. -/
theorem compare?_of_isTooLarge {a b : Number} (h : a.IsTooLarge ∨ b.IsTooLarge) :
    a.compare? b = none := by
  rw [isTooLarge_iff, isTooLarge_iff] at h
  unfold compare?
  rcases h with ha | hb
  · rw [ha]
  · rw [hb]
    cases a.toFixed? <;> rfl

end Number

end FilterQuery
