import FilterQuery.Proofs.Number.Exactness
import Mathlib.Data.Nat.Cast.Order.Field
import Mathlib.Order.Monotone.Basic

/-!
# Rounding to the nearest number

The magnitudes of the format, read as natural numbers, are the places of a grid: the value of a
place grows with its number (`gridValue_strictMono`), and two neighbours are one unit of the smaller
one's last place apart. Rounding chooses a nearest place, of two equally near ones the one with an
even number, which is the one with an even significand (`Nearest`). There is exactly one such place
(`Nearest.unique`), so what a fraction is rounded to depends on its value only.

* `nearest_floor`, `nearest_ceil`: between two neighbours their middle decides.
* `roundingExponent_spec`: the exponent at which a fraction is rounded leaves a significand that is
  a place of the grid.
* `exists_nearest_ofRatio`, `exists_nearest_ofScientific`: so the fraction is rounded to the nearest
  place, with everything behind the finite numbers counted as infinity.
* `Nearest.lt_infiniteMagnitude_iff`: that happens from `2 ^ 1024 - 2 ^ 970` on.
-/

namespace FilterQuery.Binary64

/-! ## The grid -/

/-- The value of the magnitude `n`. Behind the finite numbers the grid goes on as if exponents had
no limit. -/
def gridValue (n : ℕ) : ℚ :=
  if n / hiddenBit = 0 then (n % hiddenBit : ℕ) * 2 ^ (-1074 : ℤ)
  else (hiddenBit + n % hiddenBit : ℕ) * 2 ^ ((n / hiddenBit : ℕ) - 1075 : ℤ)

/-- The magnitudes of finite numbers are places of the grid, with the value that the number has.
Places are the magnitudes as bits, so the order of the bits is that of the values. -/
theorem absRat_eq_gridValue (x : Binary64) : x.absRat = gridValue x.magnitude.val := by
  unfold absRat gridValue significand exponent
  by_cases hfield : x.magnitude.val / hiddenBit = 0
  · simp only [hfield, if_true]
  · simp only [hfield, if_false]

/-- A place is a significand of at most 53 bits behind a number of steps of the exponent; the first
step has significands without the leading bit as well. -/
theorem gridValue_eq {p s : ℕ} (hs : s ≤ 2 * hiddenBit) (hp : p = 0 ∨ hiddenBit ≤ s) :
    gridValue (p * hiddenBit + s) = s * 2 ^ (p - 1074 : ℤ) := by
  have hpos : 0 < hiddenBit := by decide
  unfold gridValue
  -- a significand that carries over is a place of the next step, with the same value
  rcases Nat.lt_trichotomy s (2 * hiddenBit) with hlt | heq | hgt
  · rcases Nat.lt_or_ge s hiddenBit with hsmall | hlarge
    · have hp0 : p = 0 := by omega
      rw [hp0, Nat.zero_mul, Nat.zero_add, Nat.div_eq_of_lt hsmall, Nat.mod_eq_of_lt hsmall,
        if_pos rfl]
      norm_num
    · have hsplit : p * hiddenBit + s = (s - hiddenBit) + hiddenBit * (p + 1) := by
        rw [Nat.mul_add, Nat.mul_comm]
        omega
      have hfraction : s - hiddenBit < hiddenBit := by omega
      rw [hsplit, Nat.add_mul_div_left _ _ hpos, Nat.add_mul_mod_self_left,
        Nat.div_eq_of_lt hfraction, Nat.mod_eq_of_lt hfraction, if_neg (by omega),
        Nat.add_sub_of_le hlarge]
      congr 2
      push_cast
      ring
  · have hsplit : p * hiddenBit + s = hiddenBit * (p + 2) := by
      rw [heq]
      ring
    rw [hsplit, Nat.mul_div_cancel_left _ hpos, Nat.mul_mod_right, if_neg (by omega), heq]
    have hstep : ((p + 2 : ℕ) : ℤ) - 1075 = 1 + ((p : ℤ) - 1074) := by
      push_cast
      ring
    rw [hstep, zpow_add₀ (by norm_num), zpow_one]
    push_cast
    ring
  · omega

/-- Every place is of the form that `gridValue_eq` is about, and its significand is not the one that
carries over to the next step. -/
theorem exists_place (n : ℕ) :
    ∃ p s, n = p * hiddenBit + s ∧ s < 2 * hiddenBit ∧ (p = 0 ∨ hiddenBit ≤ s) := by
  have hdivision := Nat.div_add_mod n hiddenBit
  have hfraction := Nat.mod_lt n (show 0 < hiddenBit by decide)
  -- the field of the exponent is zero for the first step and counts from one after it
  rcases Nat.eq_zero_or_pos (n / hiddenBit) with hzero | hpos
  · rw [hzero, Nat.mul_zero, Nat.zero_add] at hdivision
    exact ⟨0, n, by omega, by omega, .inl rfl⟩
  · refine ⟨n / hiddenBit - 1, hiddenBit + n % hiddenBit, ?_, by omega, .inr (by omega)⟩
    have hfield : n / hiddenBit * hiddenBit =
        (n / hiddenBit - 1) * hiddenBit + hiddenBit := by
      rw [← Nat.succ_mul, Nat.succ_eq_add_one, Nat.sub_add_cancel hpos]
    rw [Nat.mul_comm] at hdivision
    omega

/-- The value of a place grows with its number, also where the exponent goes up by one: the greatest
significand and the next one are one unit apart like all others. -/
theorem gridValue_strictMono : StrictMono gridValue := by
  refine strictMono_nat_of_lt_succ fun n => ?_
  obtain ⟨p, s, rfl, hs, hp⟩ := exists_place n
  rw [Nat.add_assoc, gridValue_eq (by omega) hp, gridValue_eq (by omega) (by omega)]
  have hunit : (0 : ℚ) < 2 ^ (p - 1074 : ℤ) := zpow_pos (by norm_num) _
  push_cast
  linarith

/-! ## The nearest place -/

/-- No place is nearer to `v` than `n`, and if another one is as near, `n` is even. -/
structure Nearest (v : ℚ) (n : ℕ) : Prop where
  le : ∀ m, |gridValue n - v| ≤ |gridValue m - v|
  even : ∀ m, m ≠ n → |gridValue m - v| = |gridValue n - v| → n % 2 = 0

/-- A value on the grid is rounded to its own place. So reading back an exact decimal of a number
gives this number. -/
theorem nearest_gridValue (n : ℕ) : Nearest (gridValue n) n := by
  refine ⟨fun m => ?_, fun m hm heq => ?_⟩
  · rw [sub_self, abs_zero]
    exact abs_nonneg _
  · rw [sub_self, abs_zero, abs_eq_zero, sub_eq_zero] at heq
    exact absurd (gridValue_strictMono.injective heq) hm

/-- Of two nearest places the one before the other is no nearest place. From this follows that there
is one nearest place only, ties included. -/
theorem Nearest.not_before {v : ℚ} {n m : ℕ} (hn : Nearest v n) (hm : Nearest v m) : ¬ n < m := by
  intro hlt
  -- two nearest places are equally near
  have heq : |gridValue m - v| = |gridValue n - v| := le_antisymm (hm.le n) (hn.le m)
  have hgrid := gridValue_strictMono hlt
  -- both are even, so there is a place between them, and it is nearer than both
  have hn2 := hn.even m (by omega) heq
  have hm2 := hm.even n (by omega) heq.symm
  have hbefore := gridValue_strictMono (show n < n + 1 by omega)
  have hbehind := gridValue_strictMono (show n + 1 < m by omega)
  have hmiddle : gridValue m - v = -(gridValue n - v) := by
    rcases abs_eq_abs.1 heq with h | h
    · linarith
    · exact h
  have hnear : |gridValue (n + 1) - v| < |gridValue n - v| := by
    rw [abs_lt, abs_of_neg (by linarith)]
    constructor <;> linarith
  exact absurd (hn.le (n + 1)) (not_le.2 hnear)

/-- There is only one nearest place, so what a value is rounded to does not depend on how it is
computed. -/
theorem Nearest.unique {v : ℚ} {n m : ℕ} (hn : Nearest v n) (hm : Nearest v m) : n = m :=
  Nat.le_antisymm (Nat.le_of_not_lt (hm.not_before hn)) (Nat.le_of_not_lt (hn.not_before hm))

section Neighbours

variable {v : ℚ} {n : ℕ} (hlow : gridValue n ≤ v) (hup : v < gridValue (n + 1))

include hlow hup

/-- Places up to `n` are as far from `v` as `n` is and the way to it, and so are those behind. -/
theorem abs_gridValue_sub (m : ℕ) :
    (m ≤ n ∧ |gridValue m - v| = (v - gridValue n) + (gridValue n - gridValue m)) ∨
      (n + 1 ≤ m ∧
        |gridValue m - v| = (gridValue (n + 1) - v) + (gridValue m - gridValue (n + 1))) := by
  rcases Nat.lt_or_ge n m with hm | hm
  · have hgrid := gridValue_strictMono.monotone (show n + 1 ≤ m from hm)
    refine .inr ⟨hm, ?_⟩
    rw [abs_of_nonneg (by linarith)]
    ring
  · have hgrid := gridValue_strictMono.monotone hm
    refine .inl ⟨hm, ?_⟩
    rw [abs_of_nonpos (by linarith)]
    ring

/-- A value up to the middle of two neighbours is rounded down, in the middle itself if the lower
one is even. -/
theorem nearest_floor (hmiddle : 2 * v ≤ gridValue n + gridValue (n + 1))
    (heven : 2 * v = gridValue n + gridValue (n + 1) → n % 2 = 0) : Nearest v n := by
  have hn : |gridValue n - v| = v - gridValue n := by
    rw [abs_of_nonpos (by linarith)]
    ring
  refine ⟨fun m => ?_, fun m hm heq => heven ?_⟩
  · rcases abs_gridValue_sub hlow hup m with ⟨hm, h⟩ | ⟨hm, h⟩
    · have hgrid := gridValue_strictMono.monotone hm
      linarith
    · have hgrid := gridValue_strictMono.monotone hm
      linarith
  · rcases abs_gridValue_sub hlow hup m with ⟨hle, h⟩ | ⟨hle, h⟩
    · have hgrid := gridValue_strictMono (Nat.lt_of_le_of_ne hle hm)
      linarith
    · have hgrid := gridValue_strictMono.monotone hle
      linarith

/-- A value from the middle on is rounded up, in the middle itself if the upper one is even. -/
theorem nearest_ceil (hmiddle : gridValue n + gridValue (n + 1) ≤ 2 * v)
    (heven : 2 * v = gridValue n + gridValue (n + 1) → (n + 1) % 2 = 0) : Nearest v (n + 1) := by
  have hn : |gridValue (n + 1) - v| = gridValue (n + 1) - v := abs_of_nonneg (by linarith)
  refine ⟨fun m => ?_, fun m hm heq => heven ?_⟩
  · rcases abs_gridValue_sub hlow hup m with ⟨hm, h⟩ | ⟨hm, h⟩
    · have hgrid := gridValue_strictMono.monotone hm
      linarith
    · have hgrid := gridValue_strictMono.monotone hm
      linarith
  · rcases abs_gridValue_sub hlow hup m with ⟨hle, h⟩ | ⟨hle, h⟩
    · have hgrid := gridValue_strictMono.monotone hle
      linarith
    · have hgrid := gridValue_strictMono (Nat.lt_of_le_of_ne hle hm.symm)
      linarith

end Neighbours

/-! ## Fractions -/

theorem scale_snd_pos {base den : ℕ} (hbase : 0 < base) (hden : 0 < den) (num : ℕ) (k : ℤ) :
    0 < (scale base num den k).2 := by
  cases k with
  | ofNat n => exact Nat.mul_pos hden (Nat.pow_pos hbase)
  | negSucc n => exact hden

/-- To scale a fraction is to divide it by a power of the base. Only natural numbers are multiplied
for it, on the side where the power has no sign. -/
theorem scale_div {base : ℕ} (hbase : 0 < base) (num den : ℕ) (k : ℤ) :
    ((scale base num den k).1 : ℚ) / (scale base num den k).2 = num / den / (base : ℚ) ^ k := by
  have hne : (base : ℚ) ≠ 0 := by exact_mod_cast hbase.ne'
  cases k with
  | ofNat n =>
    show (num : ℚ) / ((den * base ^ n : ℕ) : ℚ) = num / den / (base : ℚ) ^ (n : ℤ)
    rw [zpow_natCast, Nat.cast_mul, Nat.cast_pow, div_div]
  | negSucc n =>
    show ((num * base ^ (n + 1) : ℕ) : ℚ) / den = num / den / (base : ℚ) ^ (Int.negSucc n)
    rw [zpow_negSucc, Nat.cast_mul, Nat.cast_pow, div_inv_eq_mul]
    ring

/-- A fraction is its whole part and its remainder over the denominator. -/
theorem div_eq_floor_add {num den : ℕ} (hden : 0 < den) :
    (num / den : ℚ) = (num / den : ℕ) + (num % den : ℕ) / den := by
  have hne : (den : ℚ) ≠ 0 := by exact_mod_cast hden.ne'
  rw [div_eq_iff hne, add_mul, div_mul_cancel₀ _ hne]
  exact_mod_cast (Nat.div_add_mod' num den).symm

/-- The quotient is rounded down or up, to the nearer side, or in the middle to the even one. Either
case says on which side of the middle the quotient lies, which is what `Nearest` asks for. -/
theorem roundQuotient_cases (num : ℕ) {den : ℕ} (hden : 0 < den) :
    (roundQuotient num den = num / den ∧ 2 * (num / den : ℚ) ≤ 2 * (num / den : ℕ) + 1 ∧
        (2 * (num / den : ℚ) = 2 * (num / den : ℕ) + 1 → num / den % 2 = 0)) ∨
      (roundQuotient num den = num / den + 1 ∧ 2 * (num / den : ℕ) + 1 ≤ 2 * (num / den : ℚ) ∧
        (2 * (num / den : ℚ) = 2 * (num / den : ℕ) + 1 → (num / den + 1) % 2 = 0)) := by
  have hpos : (0 : ℚ) < den := by exact_mod_cast hden
  rw [div_eq_floor_add hden]
  unfold roundQuotient
  simp only
  -- the remainder is less than half the denominator, half of it, or more
  rcases Nat.lt_trichotomy (2 * (num % den)) den with hlt | heq | hgt
  · have hhalf : ((num % den : ℕ) : ℚ) / den < 1 / 2 := by
      rw [div_lt_div_iff₀ hpos (by norm_num)]
      exact_mod_cast (by omega : num % den * 2 < 1 * den)
    rw [if_pos hlt]
    exact .inl ⟨rfl, by linarith, fun h => by linarith⟩
  · have hhalf : ((num % den : ℕ) : ℚ) / den = 1 / 2 := by
      rw [div_eq_div_iff hpos.ne' (by norm_num)]
      exact_mod_cast (by omega : num % den * 2 = 1 * den)
    rw [if_neg (by omega), if_neg (by omega)]
    rcases Nat.mod_two_eq_zero_or_one (num / den) with heven | hodd
    · exact .inl ⟨by omega, by linarith, fun _ => heven⟩
    · exact .inr ⟨by omega, by linarith, fun _ => by omega⟩
  · have hhalf : 1 / 2 < ((num % den : ℕ) : ℚ) / den := by
      rw [div_lt_div_iff₀ (by norm_num) hpos]
      exact_mod_cast (by omega : 1 * den < num % den * 2)
    rw [if_neg (by omega), if_pos hgt]
    exact .inr ⟨rfl, by linarith, fun h => by linarith⟩

/-! ## The exponent -/

/-- Whether a fraction is below a natural number can be seen from its whole part. -/
theorem div_lt_natCast_iff (num : ℕ) {den : ℕ} (hden : 0 < den) (k : ℕ) :
    (num / den : ℚ) < k ↔ num / den < k := by
  rw [div_lt_iff₀ (by exact_mod_cast hden), Nat.div_lt_iff_lt_mul hden]
  exact_mod_cast Iff.rfl

/-- A fraction lies between the powers of two that the lengths of its parts give. The exponent is
found from these lengths, so it is off by one at most. -/
theorem div_bounds {num den : ℕ} (hnum : num ≠ 0) (hden : den ≠ 0) :
    (2 : ℚ) ^ ((num.log2 : ℤ) - den.log2 - 1) < num / den ∧
      (num / den : ℚ) < 2 ^ ((num.log2 : ℤ) - den.log2 + 1) := by
  have hpos : (0 : ℚ) < den := by exact_mod_cast Nat.pos_of_ne_zero hden
  have hpow (m n : ℤ) : (2 : ℚ) ^ (m + n) = 2 ^ m * 2 ^ n := zpow_add₀ (by norm_num) m n
  have hnum_le : (2 : ℚ) ^ (num.log2 : ℤ) ≤ num := by
    exact_mod_cast Nat.log2_self_le hnum
  have hnum_lt : (num : ℚ) < 2 ^ ((num.log2 : ℤ) + 1) := by
    exact_mod_cast Nat.lt_log2_self (n := num)
  have hden_le : (2 : ℚ) ^ (den.log2 : ℤ) ≤ den := by
    exact_mod_cast Nat.log2_self_le hden
  have hden_lt : (den : ℚ) < 2 ^ ((den.log2 : ℤ) + 1) := by
    exact_mod_cast Nat.lt_log2_self (n := den)
  constructor
  · rw [lt_div_iff₀ hpos]
    calc (2 : ℚ) ^ ((num.log2 : ℤ) - den.log2 - 1) * den
        < 2 ^ ((num.log2 : ℤ) - den.log2 - 1) * 2 ^ ((den.log2 : ℤ) + 1) :=
          mul_lt_mul_of_pos_left hden_lt (zpow_pos (by norm_num) _)
      _ = 2 ^ (num.log2 : ℤ) := by
          rw [← hpow]
          congr 1
          ring
      _ ≤ num := hnum_le
  · rw [div_lt_iff₀ hpos]
    calc (num : ℚ) < 2 ^ ((num.log2 : ℤ) + 1) := hnum_lt
      _ = 2 ^ ((num.log2 : ℤ) - den.log2 + 1) * 2 ^ (den.log2 : ℤ) := by
          rw [← hpow]
          congr 1
          ring
      _ ≤ 2 ^ ((num.log2 : ℤ) - den.log2 + 1) * den :=
          mul_le_mul_of_nonneg_left hden_le (zpow_nonneg (by norm_num) _)

/-- The exponent at which a fraction is rounded leaves a significand of 53 bits, or fewer at the
least exponent. So its whole part is a place, and the next number is the next place. -/
theorem roundingExponent_spec {num den : ℕ} (hnum : num ≠ 0) (hden : den ≠ 0) :
    -1074 ≤ roundingExponent num den ∧
      (num / den : ℚ) / 2 ^ roundingExponent num den < 2 * hiddenBit ∧
      (roundingExponent num den = -1074 ∨
        (hiddenBit : ℚ) ≤ num / den / 2 ^ roundingExponent num den) := by
  obtain ⟨hlow, hup⟩ := div_bounds hnum hden
  have hbit : (hiddenBit : ℚ) = 2 ^ (52 : ℤ) := by norm_num [hiddenBit]
  have hpow (m n : ℤ) : (2 : ℚ) ^ (m + n) = 2 ^ m * 2 ^ n := zpow_add₀ (by norm_num) m n
  have hunit (e : ℤ) : (0 : ℚ) < 2 ^ e := zpow_pos (by norm_num) e
  unfold roundingExponent
  simp only
  generalize he : max ((num.log2 : ℤ) - den.log2 - 53) (-1074) = e
  -- the first guess is right or one too small
  have hguess : (num / den : ℚ) / 2 ^ e < 4 * hiddenBit := by
    rw [div_lt_iff₀ (hunit e), hbit]
    calc (num / den : ℚ) < 2 ^ ((num.log2 : ℤ) - den.log2 + 1) := hup
      _ ≤ 2 ^ (54 + e) := zpow_le_zpow_right₀ (by norm_num) (by omega)
      _ = 4 * 2 ^ (52 : ℤ) * 2 ^ e := by
          rw [hpow]
          norm_num
  have hfits : e = -1074 ∨ (hiddenBit : ℚ) ≤ num / den / 2 ^ e := by
    rcases max_cases ((num.log2 : ℤ) - den.log2 - 53) (-1074) with ⟨hmax, -⟩ | ⟨hmax, -⟩
    · right
      rw [le_div_iff₀ (hunit e), hbit, ← hpow]
      refine le_trans (le_of_eq ?_) hlow.le
      congr 1
      omega
    · left
      omega
  -- the test of the guess looks at the whole part of the scaled fraction
  have hscale := scale_div (show 0 < 2 by decide) num den e
  have hfloor := div_lt_natCast_iff (scale 2 num den e).1
    (scale_snd_pos (show 0 < 2 by decide) (Nat.pos_of_ne_zero hden) num e) (2 * hiddenBit)
  rw [hscale] at hfloor
  push_cast at hfloor
  split
  next h => exact ⟨by omega, hfloor.2 h, hfits⟩
  next h =>
    have hlarge := not_lt.1 (mt hfloor.1 h)
    rw [hpow, zpow_one, ← div_div]
    exact ⟨by omega, by linarith, .inr (by linarith)⟩

/-! ## Rounding -/

/-- Magnitudes behind the finite ones count as infinity. There is no number behind infinity, so this
is where rounding saturates. -/
theorem magnitude_ofMagnitude (negative : Bool) (n : ℕ) :
    (ofMagnitude negative n).magnitude.val = min n infiniteMagnitude := by
  have hlt : min n infiniteMagnitude < 0x8000000000000000 :=
    Nat.lt_of_le_of_lt (Nat.min_le_right _ _) (by decide)
  exact Nat.mod_eq_of_lt hlt

/-- The sign and the magnitude are all there is to a number. -/
theorem ofMagnitude_magnitude {x : Binary64} (h : x.magnitude.val ≤ infiniteMagnitude) :
    ofMagnitude x.negative x.magnitude.val = x := by
  have hmagnitude : (ofMagnitude x.negative x.magnitude.val).magnitude = x.magnitude := by
    rw [Fin.ext_iff, magnitude_ofMagnitude, Nat.min_eq_left h]
  calc ofMagnitude x.negative x.magnitude.val
      = ⟨x.negative, (ofMagnitude x.negative x.magnitude.val).magnitude⟩ := rfl
    _ = x := by rw [hmagnitude]

/-- A number made from a magnitude is finite exactly if the magnitude is. -/
theorem isFinite_ofMagnitude (negative : Bool) (n : ℕ) :
    (ofMagnitude negative n).isFinite = true ↔ n < infiniteMagnitude := by
  rw [isFinite, magnitude_ofMagnitude, decide_eq_true_iff]
  omega

theorem add_mul_hiddenBit_mod_two (p s : ℕ) : (p * hiddenBit + s) % 2 = s % 2 := by
  unfold hiddenBit
  omega

/-- At the exponent of a fraction, its rounded quotient is the nearest place. -/
theorem nearest_roundQuotient {num den p : ℕ} (hden : 0 < den) {v : ℚ}
    (hv : (num / den : ℚ) = v / 2 ^ (p - 1074 : ℤ)) (hlt : num / den < 2 * hiddenBit)
    (hp : p = 0 ∨ hiddenBit ≤ num / den) :
    Nearest v (p * hiddenBit + roundQuotient num den) := by
  have hunit : (0 : ℚ) < 2 ^ (p - 1074 : ℤ) := zpow_pos (by norm_num) _
  -- the value lies between the place of the whole part and the next one
  have hfloor : gridValue (p * hiddenBit + num / den) =
      (num / den : ℕ) * 2 ^ (p - 1074 : ℤ) := gridValue_eq (by omega) hp
  have hceil : gridValue (p * hiddenBit + num / den + 1) =
      ((num / den : ℕ) + 1) * 2 ^ (p - 1074 : ℤ) := by
    rw [Nat.add_assoc, gridValue_eq (by omega) (by omega)]
    push_cast
    rfl
  rw [eq_div_iff hunit.ne'] at hv
  have hlow : gridValue (p * hiddenBit + num / den) ≤ v := by
    rw [hfloor, ← hv]
    exact mul_le_mul_of_nonneg_right Nat.cast_div_le hunit.le
  have hup : v < gridValue (p * hiddenBit + num / den + 1) := by
    rw [hceil, ← hv]
    refine mul_lt_mul_of_pos_right ?_ hunit
    exact_mod_cast (div_lt_natCast_iff num hden (num / den + 1)).2 (Nat.lt_succ_self _)
  -- twice the value and the sum of the two neighbours, both in units of the last place
  have htwice : 2 * v = 2 * (num / den : ℚ) * 2 ^ (p - 1074 : ℤ) := by
    rw [mul_assoc, hv]
  have hsum : gridValue (p * hiddenBit + num / den) + gridValue (p * hiddenBit + num / den + 1) =
      (2 * (num / den : ℕ) + 1) * 2 ^ (p - 1074 : ℤ) := by
    rw [hfloor, hceil]
    ring
  rcases roundQuotient_cases num hden with ⟨hround, hle, heven⟩ | ⟨hround, hle, heven⟩
  · rw [hround]
    refine nearest_floor hlow hup ?_ fun heq => ?_
    · rw [htwice, hsum]
      exact mul_le_mul_of_nonneg_right hle hunit.le
    · rw [htwice, hsum] at heq
      rw [add_mul_hiddenBit_mod_two]
      exact heven (mul_right_cancel₀ hunit.ne' heq)
  · rw [hround, ← Nat.add_assoc]
    refine nearest_ceil hlow hup ?_ fun heq => ?_
    · rw [htwice, hsum]
      exact mul_le_mul_of_nonneg_right hle hunit.le
    · rw [htwice, hsum] at heq
      rw [Nat.add_assoc, add_mul_hiddenBit_mod_two]
      exact heven (mul_right_cancel₀ hunit.ne' heq)

/-- A fraction is rounded to the nearest magnitude, or to infinity if that is not finite. -/
theorem exists_nearest_ofRatio (negative : Bool) (num : ℕ) {den : ℕ} (hden : den ≠ 0) :
    ∃ n, Nearest (num / den) n ∧ ofRatio negative num den = ofMagnitude negative n := by
  unfold ofRatio
  by_cases hnum : num = 0
  · refine ⟨0, ?_, by rw [if_pos hnum]; rfl⟩
    have hzero : (num / den : ℚ) = gridValue 0 := by
      rw [hnum]
      norm_num [gridValue]
    rw [hzero]
    exact nearest_gridValue 0
  · rw [if_neg hnum]
    refine ⟨(roundingExponent num den + 1074).toNat * hiddenBit +
      roundQuotient (scale 2 num den (roundingExponent num den)).1
        (scale 2 num den (roundingExponent num den)).2, ?_, rfl⟩
    -- from here on the exponent is any number with these three properties
    obtain ⟨hleast, hlt, hfits⟩ := roundingExponent_spec hnum hden
    generalize roundingExponent num den = e at hleast hlt hfits ⊢
    have he : (((e + 1074).toNat : ℕ) : ℤ) - 1074 = e := by omega
    have hpos := scale_snd_pos (show 0 < 2 by decide) (Nat.pos_of_ne_zero hden) num e
    have hscale : ((scale 2 num den e).1 : ℚ) / (scale 2 num den e).2 = num / den / 2 ^ e :=
      scale_div (show 0 < 2 by decide) num den e
    rw [← hscale] at hlt hfits
    refine nearest_roundQuotient hpos (by rw [hscale, he]) ?_ ?_
    · rw [← div_lt_natCast_iff _ hpos]
      exact_mod_cast hlt
    · rcases hfits with hfits | hfits
      · left
        omega
      · right
        rw [← not_lt, ← div_lt_natCast_iff _ hpos, not_lt]
        exact hfits

/-- A decimal is rounded to the nearest magnitude, or to infinity if that is not finite. -/
theorem exists_nearest_ofScientific (negative : Bool) (digits : ℕ) (exponent : ℤ) :
    ∃ n, Nearest (digits * 10 ^ exponent) n ∧
      ofScientific negative digits exponent = ofMagnitude negative n := by
  have hscale := scale_div (show 0 < 10 by decide) digits 1 (-exponent)
  have hpos := scale_snd_pos (show 0 < 10 by decide) Nat.one_pos digits (-exponent)
  rw [Nat.cast_one, div_one, zpow_neg, div_inv_eq_mul] at hscale
  obtain ⟨n, hn, hround⟩ :=
    exists_nearest_ofRatio negative (scale 10 digits 1 (-exponent)).1 hpos.ne'
  rw [hscale] at hn
  exact ⟨n, by exact_mod_cast hn, hround⟩

/-! ## Finite numbers -/

/-- From here on a number is rounded to infinity: half a unit in the last place behind the greatest
finite number. -/
def roundingLimit : ℚ := 2 ^ 1024 - 2 ^ 970

/-- The limit lies in the middle between the greatest finite number and the next place. From there
on a value is rounded away from the finite numbers, as the next place is the even one. -/
theorem two_mul_roundingLimit :
    2 * roundingLimit =
      gridValue (infiniteMagnitude - 1) + gridValue (infiniteMagnitude - 1 + 1) := by
  have hgreatest : infiniteMagnitude - 1 = 2045 * hiddenBit + (2 * hiddenBit - 1) := by decide
  have hinfinite : infiniteMagnitude - 1 + 1 = 2045 * hiddenBit + 2 * hiddenBit := by decide
  have hpos : 0 < hiddenBit := by decide
  have hunit : (2 : ℚ) ^ ((2045 : ℕ) - 1074 : ℤ) = 2 ^ 971 := by
    rw [← zpow_natCast]
    norm_num
  have hbit : ((2 * hiddenBit : ℕ) : ℚ) = 2 ^ 53 := by norm_num [hiddenBit]
  rw [hinfinite, gridValue_eq (by omega) (by omega), hgreatest, gridValue_eq (by omega) (by omega),
    hunit, Nat.cast_sub (by omega), hbit, Nat.cast_one, roundingLimit,
    show (2 : ℚ) ^ 1024 = 2 ^ 53 * 2 ^ 971 by rw [← pow_add], pow_succ 2 970]
  generalize (2 : ℚ) ^ 970 = half
  ring

/-- A value is rounded to a finite number exactly if it lies below the limit. The limit itself is
rounded up, because the place behind the greatest finite number is even. -/
theorem Nearest.lt_infiniteMagnitude_iff {v : ℚ} {n : ℕ} (h : Nearest v n) :
    n < infiniteMagnitude ↔ v < roundingLimit := by
  have hmiddle := two_mul_roundingLimit
  have hgrid := gridValue_strictMono (Nat.lt_succ_self (infiniteMagnitude - 1))
  rw [Nat.succ_eq_add_one] at hgrid
  have heven : (infiniteMagnitude - 1 + 1) % 2 = 0 := by decide
  have hpos : 0 < infiniteMagnitude := by decide
  constructor
  · intro hlt
    have hn := gridValue_strictMono.monotone (show n ≤ infiniteMagnitude - 1 by omega)
    by_contra hv
    rw [not_lt] at hv
    -- up to the next place the middle decides, and behind it the next place is nearer anyway
    rcases lt_or_ge v (gridValue (infiniteMagnitude - 1 + 1)) with hup | hup
    · have hceil := nearest_ceil (by linarith) hup (by linarith) fun _ => heven
      have := h.unique hceil
      omega
    · have hle := h.le (infiniteMagnitude - 1 + 1)
      rw [abs_of_nonpos (by linarith), abs_of_nonpos (by linarith)] at hle
      linarith
  · intro hv
    by_contra hn
    have hge := gridValue_strictMono.monotone (show infiniteMagnitude - 1 + 1 ≤ n by omega)
    -- the same on the other side
    rcases le_or_gt (gridValue (infiniteMagnitude - 1)) v with hlow | hlow
    · have hfloor := nearest_floor hlow (by linarith) (by linarith) fun heq => by linarith
      have := h.unique hfloor
      omega
    · have hle := h.le (infiniteMagnitude - 1)
      rw [abs_of_nonneg (by linarith), abs_of_nonneg (by linarith)] at hle
      linarith

theorem significand_mod_two (x : Binary64) : x.significand % 2 = x.magnitude.val % 2 := by
  have hdivision := Nat.div_add_mod x.magnitude.val hiddenBit
  unfold significand
  simp only
  unfold hiddenBit at *
  split <;> omega

/-- The finite number is nearest to `v` in magnitude; if another one is as near, its significand is
even. -/
structure IsNearest (x : Binary64) (v : ℚ) : Prop where
  isFinite : x.isFinite = true
  le : ∀ y : Binary64, y.isFinite = true → |x.absRat - v| ≤ |y.absRat - v|
  even : ∀ y : Binary64, y.isFinite = true → y.absRat ≠ x.absRat →
    |y.absRat - v| = |x.absRat - v| → x.significand % 2 = 0

/-- To be nearest among the finite numbers is to be nearest on the grid, if the nearest place is
finite. -/
theorem isNearest_iff {x : Binary64} {v : ℚ} {n : ℕ} (hn : Nearest v n)
    (hfinite : n < infiniteMagnitude) : x.IsNearest v ↔ x.magnitude.val = n := by
  constructor
  · intro hx
    -- the nearest place is a number, with which `x` is compared
    have hlt : n < 0x8000000000000000 := Nat.lt_trans hfinite (by decide)
    have hy : isFinite ⟨x.negative, ⟨n, hlt⟩⟩ = true := decide_eq_true hfinite
    have hle := hx.le _ hy
    have heven := hx.even _ hy
    rw [significand_mod_two] at heven
    simp only [absRat_eq_gridValue] at hle heven
    -- as near as `n`, so nearest on the whole grid
    have heq := le_antisymm hle (hn.le x.magnitude.val)
    refine Nearest.unique ⟨fun m => heq ▸ hn.le m, fun m hm hfar => ?_⟩ hn
    by_cases hsame : x.magnitude.val = n
    · rw [hsame] at hm hfar ⊢
      exact hn.even m hm hfar
    · exact heven (fun h => hsame (gridValue_strictMono.injective h).symm) heq.symm
  · rintro rfl
    refine ⟨decide_eq_true hfinite, fun y _ => ?_, fun y _ hne heq => ?_⟩
    · rw [absRat_eq_gridValue, absRat_eq_gridValue]
      exact hn.le _
    · rw [absRat_eq_gridValue, absRat_eq_gridValue] at heq hne
      rw [significand_mod_two]
      exact hn.even _ (fun h => hne (congrArg gridValue h)) heq

end FilterQuery.Binary64
