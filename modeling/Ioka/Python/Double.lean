import Mathlib.Algebra.Order.Field.Power
import Mathlib.Data.Int.Log
import Mathlib.Data.Rat.Floor
import Mathlib.Tactic.Linarith
import Mathlib.Tactic.NormNum
import Mathlib.Tactic.Positivity
import Ioka.Python.Text

/-! # Doubles

A finite double stands for a rational number, and a rational number is rounded to
the nearest double, ties to even. Rounding keeps the integers below `2 ^ 53`, and
below `2 ^ 34` it brings no number of microseconds up to the next integer.
-/

namespace Python

/-- A floating-point number; the two zeros are one value. -/
inductive Double
  | nan
  | inf (negative : Bool)
  | finite (q : ℚ)
  deriving DecidableEq

/-- The nearest integer, the even one of two. -/
def roundHalfEven (q : ℚ) : ℤ :=
  if q - ⌊q⌋ < 1 / 2 then ⌊q⌋
  else if 1 / 2 < q - ⌊q⌋ then ⌊q⌋ + 1
  else if ⌊q⌋ % 2 = 0 then ⌊q⌋ else ⌊q⌋ + 1

/-- The exponent of the last of 53 binary digits. -/
def ulpExponent (q : ℚ) : ℤ := max (Int.log 2 |q| - 52) (-1074)

/-- The multiple of the last digit's unit next to a number. -/
def roundToUlp (q : ℚ) : ℚ := roundHalfEven (q / 2 ^ ulpExponent q) * 2 ^ ulpExponent q

/-- The double next to a number. -/
def Double.ofRat (q : ℚ) : Double :=
  if 2 ^ 1024 ≤ |roundToUlp q| then .inf (q < 0) else .finite (roundToUlp q)

/-- The integer next to a number on the side of zero. -/
def trunc (q : ℚ) : ℤ := if q < 0 then ⌈q⌉ else ⌊q⌋

/-- `int(x)` of a float. -/
def Double.toInt : Double → Except Exc ℤ
  | .nan => .error .valueError
  | .inf _ => .error .overflowError
  | .finite q => .ok (trunc q)

section Rounding

variable {q : ℚ} {n : ℤ}

theorem le_roundHalfEven (h : (n : ℚ) ≤ q) : n ≤ roundHalfEven q := by
  have hf : n ≤ ⌊q⌋ := Int.le_floor.mpr h
  unfold roundHalfEven
  split_ifs <;> omega

theorem roundHalfEven_le (h : q ≤ n) : roundHalfEven q ≤ n := by
  have hf : (⌊q⌋ : ℚ) ≤ q := Int.floor_le q
  rcases h.eq_or_lt with rfl | hlt
  · simp [roundHalfEven]
  · have hlt' : ⌊q⌋ < n := Int.floor_lt.mpr hlt
    unfold roundHalfEven
    split_ifs <;> omega

theorem abs_roundHalfEven_sub_le (q : ℚ) : |roundHalfEven q - q| ≤ 1 / 2 := by
  have h₁ := Int.floor_le q
  have h₂ := Int.lt_floor_add_one q
  unfold roundHalfEven
  rw [abs_le]
  split_ifs <;> push_cast <;> constructor <;> linarith

theorem exists_eq_mul_ulp (hq : |q| < 2 ^ 53) (n : ℤ) :
    ∃ m : ℤ, (n : ℚ) = m * 2 ^ ulpExponent q := by
  have he : ulpExponent q ≤ 0 := by
    unfold ulpExponent
    rcases eq_or_ne q 0 with rfl | hne
    · simp
    · have hlog : Int.log 2 |q| < 53 :=
        (Int.lt_zpow_iff_log_lt (by norm_num) (abs_pos.mpr hne)).mp (by exact_mod_cast hq)
      omega
  obtain ⟨k, hk⟩ := Int.eq_ofNat_of_zero_le (neg_nonneg.mpr he)
  refine ⟨n * 2 ^ k, ?_⟩
  have hk' : ulpExponent q = -(k : ℤ) := by omega
  rw [hk', zpow_neg, zpow_natCast]
  push_cast
  field_simp

theorem le_roundToUlp (hq : |q| < 2 ^ 53) (h : (n : ℚ) ≤ q) : (n : ℚ) ≤ roundToUlp q := by
  obtain ⟨m, hm⟩ := exists_eq_mul_ulp hq n
  have hpos : (0 : ℚ) < 2 ^ ulpExponent q := by positivity
  have hmq : (m : ℚ) ≤ q / 2 ^ ulpExponent q := by
    rw [le_div_iff₀ hpos, ← hm]
    exact h
  rw [roundToUlp, hm]
  exact mul_le_mul_of_nonneg_right (by exact_mod_cast le_roundHalfEven hmq) hpos.le

theorem roundToUlp_le (hq : |q| < 2 ^ 53) (h : q ≤ n) : roundToUlp q ≤ n := by
  obtain ⟨m, hm⟩ := exists_eq_mul_ulp hq n
  have hpos : (0 : ℚ) < 2 ^ ulpExponent q := by positivity
  have hmq : q / 2 ^ ulpExponent q ≤ m := by
    rw [div_le_iff₀ hpos, ← hm]
    exact h
  rw [roundToUlp, hm]
  exact mul_le_mul_of_nonneg_right (by exact_mod_cast roundHalfEven_le hmq) hpos.le

theorem roundToUlp_sub_le (q : ℚ) : roundToUlp q - q ≤ 2 ^ ulpExponent q / 2 := by
  have hpos : (0 : ℚ) < 2 ^ ulpExponent q := by positivity
  have h := (abs_le.mp (abs_roundHalfEven_sub_le (q / 2 ^ ulpExponent q))).2
  have hq : q = q / 2 ^ ulpExponent q * 2 ^ ulpExponent q := by field_simp
  calc roundToUlp q - q
      = (roundHalfEven (q / 2 ^ ulpExponent q) - q / 2 ^ ulpExponent q) * 2 ^ ulpExponent q := by
        rw [sub_mul, ← hq, roundToUlp]
    _ ≤ 1 / 2 * 2 ^ ulpExponent q := mul_le_mul_of_nonneg_right h hpos.le
    _ = 2 ^ ulpExponent q / 2 := by ring

theorem ofRat_eq_finite (hq : |q| < 2 ^ 53) : Double.ofRat q = .finite (roundToUlp q) := by
  have hq' := abs_lt.mp hq
  have hle : roundToUlp q ≤ ((2 ^ 53 : ℤ) : ℚ) := roundToUlp_le hq (by push_cast; exact hq'.2.le)
  have hge : ((-2 ^ 53 : ℤ) : ℚ) ≤ roundToUlp q := le_roundToUlp hq (by push_cast; exact hq'.1.le)
  have habs : |roundToUlp q| ≤ 2 ^ 53 := abs_le.mpr ⟨by exact_mod_cast hge, by exact_mod_cast hle⟩
  have hbig : (2 : ℚ) ^ 53 < 2 ^ 1024 := pow_lt_pow_right₀ (by norm_num) (by norm_num)
  rw [Double.ofRat, if_neg (not_le.mpr (habs.trans_lt hbig))]

theorem ulpExponent_le (hq : |q| < 2 ^ 34) : ulpExponent q ≤ -19 := by
  unfold ulpExponent
  rcases eq_or_ne q 0 with rfl | hne
  · simp
  · have hlog : Int.log 2 |q| < 34 :=
      (Int.lt_zpow_iff_log_lt (by norm_num) (abs_pos.mpr hne)).mp (by exact_mod_cast hq)
    omega

end Rounding

section Timestamps

variable {m : ℤ}

theorem floor_le_roundToUlp (h : |(m / 10 ^ 6 : ℚ)| < 2 ^ 53) :
    ⌊(m / 10 ^ 6 : ℚ)⌋ ≤ ⌊roundToUlp (m / 10 ^ 6)⌋ :=
  Int.le_floor.mpr (le_roundToUlp h (Int.floor_le _))

/-- Below `2 ^ 34` seconds a number of microseconds stays below the next whole second. -/
theorem floor_roundToUlp (h₀ : 0 ≤ m) (h : m < 2 ^ 34 * 10 ^ 6) :
    ⌊roundToUlp (m / 10 ^ 6)⌋ = ⌊(m / 10 ^ 6 : ℚ)⌋ := by
  have hm₀ : (0 : ℚ) ≤ m / 10 ^ 6 := by positivity
  have hm : (m / 10 ^ 6 : ℚ) < 2 ^ 34 := by
    rw [div_lt_iff₀ (by norm_num)]
    exact_mod_cast h
  have habs : |(m / 10 ^ 6 : ℚ)| < 2 ^ 34 := by rwa [abs_of_nonneg hm₀]
  refine le_antisymm ?_ (floor_le_roundToUlp (habs.trans (by norm_num)))
  set n := ⌊(m / 10 ^ 6 : ℚ)⌋ with hn
  have hlast : (m : ℚ) + 1 ≤ (n + 1) * 10 ^ 6 := by
    have hlt : (m / 10 ^ 6 : ℚ) < n + 1 := Int.lt_floor_add_one _
    rw [div_lt_iff₀ (by norm_num)] at hlt
    have hint : m < (n + 1) * 10 ^ 6 := by exact_mod_cast hlt
    exact_mod_cast hint
  have hulp : (2 : ℚ) ^ ulpExponent (m / 10 ^ 6) ≤ 2 ^ (-19 : ℤ) :=
    zpow_le_zpow_right₀ (by norm_num) (ulpExponent_le habs)
  have hround := roundToUlp_sub_le (m / 10 ^ 6 : ℚ)
  have hsmall : (2 : ℚ) ^ (-19 : ℤ) / 2 < 1 / 10 ^ 6 := by norm_num
  have hq : (m / 10 ^ 6 : ℚ) ≤ n + 1 - 1 / 10 ^ 6 := by
    rw [div_le_iff₀ (by norm_num)]
    linarith
  have hlt : roundToUlp (m / 10 ^ 6) < n + 1 := by linarith
  exact Int.lt_add_one_iff.mp (Int.floor_lt.mpr (by exact_mod_cast hlt))

end Timestamps

end Python
