import Ioka.Python.Double

/-! # Instants

A UTC `datetime` counts microseconds. Its `timestamp()` is a double, so that the whole
seconds that `int()` takes from it are the floor only up to `2 ^ 34` seconds.
-/

namespace Python

/-- An aware UTC `datetime` as microseconds since 1970, in the years 1 to 9999. -/
structure Datetime where
  micros : ℤ
  bounds : -62135596800 * 10 ^ 6 ≤ micros ∧ micros < 253402300800 * 10 ^ 6
  deriving DecidableEq

namespace Datetime

/-- `t.timestamp()` -/
def timestamp (t : Datetime) : Double := .ofRat (t.micros / 10 ^ 6)

/-- `t + timedelta(minutes=minutes)` -/
def addMinutes (t : Datetime) (minutes : ℤ) : Except Exc Datetime :=
  if h : -62135596800 * 10 ^ 6 ≤ t.micros + minutes * 60 * 10 ^ 6 ∧
      t.micros + minutes * 60 * 10 ^ 6 < 253402300800 * 10 ^ 6 then
    .ok ⟨t.micros + minutes * 60 * 10 ^ 6, h⟩
  else .error .overflowError

/-- The whole seconds that have passed. -/
def floor (t : Datetime) : ℤ := t.micros / 10 ^ 6

/-- The whole seconds of `t.timestamp()`. -/
def seconds (t : Datetime) : ℤ := trunc (roundToUlp (t.micros / 10 ^ 6))

section Seconds

variable (t : Datetime)

theorem abs_timestamp_lt : |(t.micros / 10 ^ 6 : ℚ)| < 2 ^ 53 := by
  obtain ⟨h₁, h₂⟩ := t.bounds
  have h₁' : (-62135596800 * 10 ^ 6 : ℚ) ≤ t.micros := by exact_mod_cast h₁
  have h₂' : (t.micros : ℚ) < 253402300800 * 10 ^ 6 := by exact_mod_cast h₂
  rw [abs_lt, lt_div_iff₀ (by norm_num), div_lt_iff₀ (by norm_num)]
  constructor <;> linarith

theorem floor_eq : ⌊(t.micros / 10 ^ 6 : ℚ)⌋ = t.floor := by
  have h := Rat.floor_intCast_div_natCast t.micros (10 ^ 6)
  push_cast at h
  exact h

theorem toInt_timestamp : t.timestamp.toInt = .ok t.seconds := by
  rw [timestamp, ofRat_eq_finite t.abs_timestamp_lt]
  rfl

theorem floor_le_seconds : t.floor ≤ t.seconds := by
  have h := floor_le_roundToUlp t.abs_timestamp_lt
  rw [floor_eq] at h
  unfold seconds trunc
  split_ifs
  · exact h.trans (Int.floor_le_ceil _)
  · exact h

theorem seconds_nonneg {t : Datetime} (h : 0 ≤ t.micros) : 0 ≤ t.seconds :=
  (Int.ediv_nonneg h (by norm_num)).trans t.floor_le_seconds

theorem seconds_eq_floor {t : Datetime} (h₀ : 0 ≤ t.micros) (h : t.micros < 2 ^ 34 * 10 ^ 6) :
    t.seconds = t.floor := by
  have hm₀ : (0 : ℚ) ≤ t.micros / 10 ^ 6 := by positivity
  have hround : (0 : ℚ) ≤ roundToUlp (t.micros / 10 ^ 6) := by
    have h := le_roundToUlp (n := 0) t.abs_timestamp_lt (by exact_mod_cast hm₀)
    exact_mod_cast h
  rw [seconds, trunc, if_neg (not_lt.mpr hround), floor_roundToUlp h₀ h, floor_eq]

theorem seconds_nonpos {t : Datetime} (h : t.micros ≤ 0) : t.seconds ≤ 0 := by
  have hq : (t.micros / 10 ^ 6 : ℚ) ≤ (0 : ℤ) := by
    have h' : (t.micros : ℚ) ≤ 0 := by exact_mod_cast h
    rw [div_le_iff₀ (by norm_num)]
    simpa using h'
  have hround := roundToUlp_le t.abs_timestamp_lt hq
  unfold seconds trunc
  split_ifs
  · exact Int.ceil_le.mpr hround
  · exact Int.floor_le_iff.mpr (by linarith)

theorem abs_seconds_le : |t.seconds| ≤ 253402300800 := by
  obtain ⟨h₁, h₂⟩ := t.bounds
  have h₁' : (-62135596800 * 10 ^ 6 : ℚ) ≤ t.micros := by exact_mod_cast h₁
  have h₂' : (t.micros : ℚ) < 253402300800 * 10 ^ 6 := by exact_mod_cast h₂
  have hle : (t.micros / 10 ^ 6 : ℚ) ≤ (253402300800 : ℤ) := by
    rw [div_le_iff₀ (by norm_num)]
    push_cast
    linarith
  have hge : ((-253402300800 : ℤ) : ℚ) ≤ t.micros / 10 ^ 6 := by
    rw [le_div_iff₀ (by norm_num)]
    push_cast
    linarith
  have hround := roundToUlp_le t.abs_timestamp_lt hle
  have hround' := le_roundToUlp t.abs_timestamp_lt hge
  rw [abs_le]
  unfold seconds trunc
  split_ifs
  · exact ⟨Int.cast_le.mp (hround'.trans (Int.le_ceil _)), Int.ceil_le.mpr hround⟩
  · exact ⟨Int.le_floor.mpr hround', Int.cast_le.mp ((Int.floor_le _).trans hround)⟩

end Seconds

end Datetime

end Python
