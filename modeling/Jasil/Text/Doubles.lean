import Jasil.Text.Numbers
import Mathlib.Algebra.Order.Round

/-! # Finite doubles
Rounding to the nearest double, half to even, keeps the order and leaves the doubles as they are.

* **`nearestDouble_mono`**, **`isDouble_nearestDouble`**: it is monotone, and what it gives is a double.
* **`Double`**: a finite double; sums are rounded. -/

namespace Jasil

open NumberText

/-! ## Rounding to an integer -/

/-- Rounding does not pass an integer. -/
theorem roundHalfEven_le {q : ℚ} {n : ℤ} (h : q ≤ n) : roundHalfEven q ≤ n := by
  rcases h.lt_or_eq with hlt | rfl
  · exact (roundHalfEven_bounds q).2.trans (Int.floor_lt.mpr hlt)
  · exact (roundHalfEven_intCast n).le

/-- Nor from above. -/
theorem le_roundHalfEven {q : ℚ} {n : ℤ} (h : (n : ℚ) ≤ q) : n ≤ roundHalfEven q :=
  (Int.le_floor.mpr h).trans (roundHalfEven_bounds q).1

/-- Rounding to an integer keeps the order. -/
theorem roundHalfEven_mono {p q : ℚ} (h : p ≤ q) : roundHalfEven p ≤ roundHalfEven q := by
  rcases (Int.floor_mono h).lt_or_eq with hlt | heq
  · exact (roundHalfEven_bounds p).2.trans (le_trans hlt (roundHalfEven_bounds q).1)
  · -- both are rounded from the same integer, by their fractions
    simp only [roundHalfEven, heq]
    split_ifs <;> first | omega | (exfalso; linarith)

/-- The nearest integer is at most a half away. -/
theorem abs_roundHalfEven_sub_le (q : ℚ) : |(roundHalfEven q : ℚ) - q| ≤ 1 / 2 := by
  have hle := Int.floor_le q
  have hlt := Int.lt_floor_add_one q
  simp only [roundHalfEven]
  rw [abs_le]
  split_ifs
  all_goals
    push_cast
    constructor <;> linarith

/-! ## Rounding to a double -/

/-- The exponent of the unit in the last place. -/
theorem ulpExponent_eq (q : ℚ) : ulpExponent q = max (Int.log 2 q) (-1022) - 52 := rfl

/-- The unit in the last place is positive. -/
theorem ulp_pos (q : ℚ) : (0 : ℚ) < 2 ^ ulpExponent q := zpow_pos (by norm_num) _

/-- Rounding does not pass a multiple of the unit in the last place. -/
theorem roundDouble_le {q : ℚ} {n : ℤ} (h : q ≤ n * 2 ^ ulpExponent q) :
    roundDouble q ≤ n * 2 ^ ulpExponent q := by
  refine mul_le_mul_of_nonneg_right ?_ (ulp_pos q).le
  exact_mod_cast roundHalfEven_le ((div_le_iff₀ (ulp_pos q)).mpr h)

/-- Nor from above. -/
theorem le_roundDouble {q : ℚ} {n : ℤ} (h : n * 2 ^ ulpExponent q ≤ q) :
    n * 2 ^ ulpExponent q ≤ roundDouble q := by
  refine mul_le_mul_of_nonneg_right ?_ (ulp_pos q).le
  exact_mod_cast le_roundHalfEven ((le_div_iff₀ (ulp_pos q)).mpr h)

/-- What is not negative stays so. -/
theorem roundDouble_nonneg {q : ℚ} (h : 0 ≤ q) : 0 ≤ roundDouble q := by
  have hzero := @le_roundDouble q 0 (by simpa using h)
  simpa using hzero

/-- A power of two that is no smaller than the unit is a multiple of it. -/
theorem exists_mul_ulp {q : ℚ} {k : ℤ} (h : ulpExponent q ≤ k) :
    ∃ n : ℤ, (2 : ℚ) ^ k = n * 2 ^ ulpExponent q := by
  refine ⟨2 ^ (k - ulpExponent q).toNat, ?_⟩
  have hexponent : k = ((k - ulpExponent q).toNat : ℤ) + ulpExponent q := by omega
  conv_lhs => rw [hexponent, zpow_add₀ (by norm_num), zpow_natCast]
  push_cast
  rfl

/-- Rounding does not pass a power of two. -/
theorem roundDouble_le_zpow {q : ℚ} {k : ℤ} (hulp : ulpExponent q ≤ k)
    (h : q ≤ 2 ^ k) : roundDouble q ≤ 2 ^ k := by
  obtain ⟨n, hn⟩ := exists_mul_ulp hulp
  rw [hn] at h ⊢
  exact roundDouble_le h

/-- Nor from above. -/
theorem zpow_le_roundDouble {q : ℚ} {k : ℤ} (hulp : ulpExponent q ≤ k)
    (h : 2 ^ k ≤ q) : 2 ^ k ≤ roundDouble q := by
  obtain ⟨n, hn⟩ := exists_mul_ulp hulp
  rw [hn] at h ⊢
  exact le_roundDouble h

/-- Rounding a number that is not negative keeps the order. -/
theorem roundDouble_mono {p q : ℚ} (hp : 0 ≤ p) (h : p ≤ q) : roundDouble p ≤ roundDouble q := by
  rcases hp.lt_or_eq with hpos | rfl
  · have hlog : Int.log 2 p ≤ Int.log 2 q := Int.log_mono_right hpos h
    by_cases hulp : ulpExponent p = ulpExponent q
    · rw [roundDouble, roundDouble, hulp]
      refine mul_le_mul_of_nonneg_right ?_ (ulp_pos q).le
      exact_mod_cast roundHalfEven_mono (div_le_div_of_nonneg_right h (ulp_pos q).le)
    · -- a power of two lies between them
      have hp := ulpExponent_eq p
      have hq := ulpExponent_eq q
      have hlog : Int.log 2 p < Int.log 2 q := by omega
      have hlt : p < 2 ^ Int.log 2 q := (Int.lt_zpow_iff_log_lt (by decide) hpos).mpr hlog
      have hle : (2 : ℚ) ^ Int.log 2 q ≤ q := Int.zpow_log_le_self (by decide) (hpos.trans_le h)
      calc roundDouble p ≤ 2 ^ Int.log 2 q := roundDouble_le_zpow (by omega) hlt.le
        _ ≤ roundDouble q := zpow_le_roundDouble (by omega) hle
  · rw [roundDouble_zero]
    exact roundDouble_nonneg h

/-- What is written with a unit that is large enough is a double. -/
theorem roundDouble_of_eq {q : ℚ} {n e : ℤ} (hq : q = n * 2 ^ e)
    (he : ulpExponent q ≤ e) : roundDouble q = q := by
  obtain ⟨m, hm⟩ := exists_mul_ulp he
  have hscaled : q / 2 ^ ulpExponent q = ((n * m : ℤ) : ℚ) := by
    rw [div_eq_iff (ulp_pos q).ne', Int.cast_mul, mul_assoc, ← hm, ← hq]
  rw [roundDouble, hscaled, roundHalfEven_intCast, ← hscaled, div_mul_cancel₀ _ (ulp_pos q).ne']

/-- **What is rounded is a double.** -/
theorem roundDouble_roundDouble {q : ℚ} (h : 0 ≤ q) : roundDouble (roundDouble q) = roundDouble q := by
  rcases (roundDouble_nonneg h).lt_or_eq with hpos | hzero
  · have hq : 0 < q := by
      rcases h.lt_or_eq with hq | rfl
      · exact hq
      · exact absurd roundDouble_zero hpos.ne'
    have hulp := ulpExponent_eq q
    have hlog : Int.log 2 q < ulpExponent q + 53 := by omega
    have hlt : q < 2 ^ (ulpExponent q + 53) := (Int.lt_zpow_iff_log_lt (by decide) hq).mpr hlog
    rcases (roundDouble_le_zpow (by omega) hlt.le).lt_or_eq with hbelow | htop
    · refine roundDouble_of_eq (n := roundHalfEven (q / 2 ^ ulpExponent q)) rfl ?_
      have hlog : Int.log 2 (roundDouble q) < ulpExponent q + 53 :=
        (Int.lt_zpow_iff_log_lt (by decide) hpos).mp hbelow
      rw [ulpExponent_eq (roundDouble q)]
      omega
    · -- it is rounded up to the next power of two
      refine roundDouble_of_eq (n := 1) (e := ulpExponent q + 53) (by rw [htop, Int.cast_one, one_mul]) ?_
      have hlog : Int.log 2 (roundDouble q) = ulpExponent q + 53 := by
        rw [htop]
        exact Int.log_zpow (by decide) _
      rw [ulpExponent_eq (roundDouble q), hlog]
      omega
  · rw [← hzero, roundDouble_zero]

/-- The nearest double is at most half a unit away. -/
theorem abs_roundDouble_sub_le (q : ℚ) : |roundDouble q - q| ≤ 2 ^ ulpExponent q / 2 := by
  have hround := abs_roundHalfEven_sub_le (q / 2 ^ ulpExponent q)
  have hscale : roundDouble q - q
      = ((roundHalfEven (q / 2 ^ ulpExponent q) : ℚ) - q / 2 ^ ulpExponent q) * 2 ^ ulpExponent q := by
    rw [sub_mul, div_mul_cancel₀ _ (ulp_pos q).ne']
    rfl
  rw [hscale, abs_mul, abs_of_pos (ulp_pos q)]
  have := mul_le_mul_of_nonneg_right hround (ulp_pos q).le
  linarith

/-! ## Signs -/

/-- A number that is not negative. -/
theorem nearestDouble_of_nonneg {q : ℚ} (h : 0 ≤ q) : nearestDouble q = roundDouble q := by
  rw [nearestDouble, signed, if_neg (by simpa using h), abs_of_nonneg h]

/-- Rounding is the same on both sides of zero. -/
theorem nearestDouble_neg (q : ℚ) : nearestDouble (-q) = -nearestDouble q := by
  rcases lt_trichotomy q 0 with hneg | rfl | hpos
  · rw [nearestDouble_of_nonneg (by linarith), nearestDouble, signed, if_pos (decide_eq_true hneg), neg_neg,
      abs_of_neg hneg]
  · rw [neg_zero, nearestDouble_of_nonneg le_rfl, roundDouble_zero, neg_zero]
  · rw [nearestDouble_of_nonneg hpos.le, nearestDouble, signed, if_pos (decide_eq_true (by linarith)), abs_neg,
      abs_of_pos hpos]

/-- **Rounding keeps the order.** -/
theorem nearestDouble_mono {p q : ℚ} (h : p ≤ q) : nearestDouble p ≤ nearestDouble q := by
  have hnonneg {p q : ℚ} (hp : 0 ≤ p) (h : p ≤ q) : nearestDouble p ≤ nearestDouble q := by
    rw [nearestDouble_of_nonneg hp, nearestDouble_of_nonneg (hp.trans h)]
    exact roundDouble_mono hp h
  rcases le_total 0 p with hp | hp
  · exact hnonneg hp h
  · rcases le_total 0 q with hq | hq
    · have hzero : nearestDouble 0 = 0 := by rw [nearestDouble_of_nonneg le_rfl, roundDouble_zero]
      have hp' := hnonneg le_rfl (neg_nonneg.mpr hp)
      have hq' := hnonneg le_rfl hq
      rw [nearestDouble_neg, hzero] at hp'
      rw [hzero] at hq'
      linarith
    · have hneg := hnonneg (neg_nonneg.mpr hq) (neg_le_neg h)
      rw [nearestDouble_neg, nearestDouble_neg] at hneg
      exact neg_le_neg_iff.mp hneg

/-- The magnitude of a double. -/
theorem abs_nearestDouble (q : ℚ) : |nearestDouble q| = roundDouble |q| := by
  have hround := roundDouble_nonneg (abs_nonneg q)
  rw [nearestDouble, signed]
  split
  · rw [abs_neg, abs_of_nonneg hround]
  · exact abs_of_nonneg hround

/-- **What is nearest is a double.** -/
theorem isDouble_nearestDouble (q : ℚ) : IsDouble (nearestDouble q) := by
  rw [IsDouble, abs_nearestDouble]
  exact roundDouble_roundDouble (abs_nonneg q)

/-- A double is the nearest to itself. -/
theorem nearestDouble_of_isDouble {q : ℚ} (h : IsDouble q) : nearestDouble q = q := by
  rw [nearestDouble, h, signed]
  by_cases hneg : q < 0
  · rw [if_pos (decide_eq_true hneg), abs_of_neg hneg, neg_neg]
  · rw [if_neg (by simpa using hneg), abs_of_nonneg (not_lt.mp hneg)]

/-- Below `2 ^ 42` doubles lie less than half a thousandth apart. -/
theorem abs_nearestDouble_sub_le {q : ℚ} (h : |q| < 2 ^ 42) : |nearestDouble q - q| ≤ 1 / 4096 := by
  have hsame : |nearestDouble q - q| = |roundDouble |q| - abs q| := by
    rcases le_total 0 q with hq | hq
    · rw [nearestDouble_of_nonneg hq, abs_of_nonneg hq]
    · have hneg := nearestDouble_neg (-q)
      rw [neg_neg, nearestDouble_of_nonneg (neg_nonneg.mpr hq)] at hneg
      rw [abs_of_nonpos hq, hneg, ← abs_neg]
      congr 1
      linarith
  have hulp : (2 : ℚ) ^ ulpExponent |q| ≤ 2 ^ (-11 : ℤ) := by
    refine zpow_le_zpow_right₀ (by norm_num) ?_
    rcases (abs_nonneg q).lt_or_eq with hpos | hzero
    · have hlog := (Int.lt_zpow_iff_log_lt (b := 2) (x := 42) (by decide) hpos).mp (by exact_mod_cast h)
      rw [ulpExponent_eq]
      omega
    · rw [← hzero, ulpExponent_eq, Int.log_zero_right]
      decide
  have herror := abs_roundDouble_sub_le |q|
  norm_num at hulp
  rw [hsame]
  linarith

/-! ## Finite doubles -/

/-- A finite double. -/
@[ext] structure Double where
  value : ℚ
  isDouble : IsDouble value
  deriving DecidableEq

namespace Double

/-- A double is the number that it is. -/
theorem value_injective : Function.Injective value := fun _ _ => Double.ext

instance : LinearOrder Double := LinearOrder.lift' value value_injective

/-- The double nearest to a number. -/
def nearest (q : ℚ) : Double := ⟨nearestDouble q, isDouble_nearestDouble q⟩

/-- `float(n)`. -/
instance : IntCast Double := ⟨fun n => nearest n⟩

/-- A sum is rounded. -/
instance : Add Double := ⟨fun x y => nearest (x.value + y.value)⟩

/-- Rounding keeps the order. -/
theorem nearest_mono {p q : ℚ} (h : p ≤ q) : nearest p ≤ nearest q := nearestDouble_mono h

/-- A double is the nearest to itself. -/
@[simp] theorem nearest_value (x : Double) : nearest x.value = x :=
  value_injective (nearestDouble_of_isDouble x.isDouble)

/-- Rounding does not pass a double. -/
theorem nearest_le {q : ℚ} {x : Double} (h : q ≤ x.value) : nearest q ≤ x :=
  (nearest_mono h).trans_eq x.nearest_value

/-- Nor from above. -/
theorem le_nearest {q : ℚ} {x : Double} (h : x.value ≤ q) : x ≤ nearest q :=
  x.nearest_value.symm.trans_le (nearest_mono h)

end Double

end Jasil
