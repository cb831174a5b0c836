import AttributeRegistry.Decimal.Shortest
import Mathlib.Algebra.Order.Field.Power
import Mathlib.Algebra.Order.Field.Rat
import Mathlib.Tactic.FieldSimp
import Mathlib.Tactic.Linarith
import Mathlib.Tactic.LinearCombination
import Mathlib.Tactic.Positivity
import Mathlib.Tactic.Ring

/-!
# Which decimals read back as a double

A double is the nearest to the numbers of an interval around its value; an end of the interval belongs
to it if the double is even. Intervals of different doubles do not meet, so that a number reads back as
one double at most (`Binary.eq_of_reads`).
-/

namespace AttributeRegistry.Decimal

/-! ## Values -/

/-- The value of a decimal. -/
def Scaled.value (d : Scaled) : ℚ :=
  d.digits * 10 ^ d.exponent

namespace Binary

variable {x y : Binary}

/-- The value of a number. -/
def value (x : Binary) : ℚ :=
  x.m * 2 ^ x.q

/-- Quarters of the unit from the value down to the lower end of its interval. -/
def reach (x : Binary) : ℕ :=
  if x.tight then 1 else 2

/-- The lower end of the interval. -/
def low (x : Binary) : ℚ :=
  (4 * x.m - x.reach) * 2 ^ (x.q - 2)

/-- The upper end of the interval. -/
def high (x : Binary) : ℚ :=
  (4 * x.m + 2) * 2 ^ (x.q - 2)

/-- A number reads back as the double: it lies in the interval, and at an end only if the double is
even. -/
structure Reads (x : Binary) (v : ℚ) : Prop where
  low_le : x.low ≤ v
  le_high : v ≤ x.high
  inner : x.m % 2 ≠ 0 → x.low ≠ v ∧ v ≠ x.high

/-- The numbers that a finite positive double decodes to. -/
structure Legal (x : Binary) : Prop where
  pos : 0 < x.m
  lt : x.m < 2 ^ 53
  least : -1074 ≤ x.q
  greatest : x.q ≤ 971
  /-- Above the least exponent the leading bit is set. -/
  normal : -1074 < x.q → 2 ^ 52 ≤ x.m
  tight_iff : x.tight = true ↔ x.m = 2 ^ 52 ∧ -1074 < x.q

/-- A legal number is determined by its fields. -/
theorem Legal.fields_iff (hx : x.Legal) (hy : y.Legal) : x.q = y.q ∧ x.m = y.m ↔ x = y := by
  refine ⟨fun ⟨hq, hm⟩ => ?_, fun h => h ▸ ⟨rfl, rfl⟩⟩
  have htight : x.tight = y.tight := by
    rw [Bool.eq_iff_iff, hx.tight_iff, hy.tight_iff, hq, hm]
  obtain ⟨m, q, tight⟩ := x
  obtain ⟨m', q', tight'⟩ := y
  cases hq
  cases hm
  cases htight
  rfl

/-! ## Ratios -/

theorem toNat_zpow {a : ℚ} (ha : a ≠ 0) (n : ℤ) : a ^ n.toNat = a ^ n * a ^ (-n).toNat := by
  rcases Int.le_total 0 n with h | h
  · rw [Int.toNat_of_nonpos (Int.neg_nonpos_of_nonneg h), pow_zero, mul_one, ← zpow_natCast,
      Int.toNat_of_nonneg h]
  · rw [Int.toNat_of_nonpos h, pow_zero, ← zpow_natCast, Int.toNat_of_nonneg (Int.neg_nonneg_of_nonpos h),
      ← zpow_add₀ ha, add_neg_cancel, zpow_zero]

theorem ratio_snd_pos (n : ℕ) (a b : ℤ) : 0 < (ratio n a b).2 :=
  Nat.mul_pos (Nat.pow_pos Nat.two_pos) (Nat.pow_pos (by decide))

/-- The two parts of a ratio. -/
theorem ratio_fst (n : ℕ) (a b : ℤ) :
    ((ratio n a b).1 : ℚ) = n * 2 ^ a * 10 ^ b * (ratio n a b).2 := by
  have h₂ := toNat_zpow (show (2 : ℚ) ≠ 0 by norm_num) a
  have h₁₀ := toNat_zpow (show (10 : ℚ) ≠ 0 by norm_num) b
  simp only [ratio, Nat.pow_eq, Nat.cast_mul, Nat.cast_pow, Nat.cast_ofNat, h₂, h₁₀]
  ring

/-- A whole number against a ratio: the number times `10^p`, if the ratio was taken in units of it. -/
theorem sub_ratio (n d : ℕ) (a p : ℤ) :
    (d * (ratio n a (-p)).2 : ℚ) - (ratio n a (-p)).1 =
      (d * 10 ^ p - n * 2 ^ a) * (10 ^ (-p) * (ratio n a (-p)).2) := by
  have hten : (10 : ℚ) ^ p * 10 ^ (-p) = 1 := by
    rw [← zpow_add₀ (by norm_num), add_neg_cancel, zpow_zero]
  rw [ratio_fst]
  linear_combination -(d : ℚ) * (ratio n a (-p)).2 * hten

theorem ratio_scale_pos (n : ℕ) (a p : ℤ) : (0 : ℚ) < 10 ^ (-p) * (ratio n a (-p)).2 :=
  mul_pos (by positivity) (Nat.cast_pos.mpr (ratio_snd_pos n a (-p)))

theorem ratio_le_iff (n d : ℕ) (a p : ℤ) :
    (ratio n a (-p)).1 ≤ d * (ratio n a (-p)).2 ↔ (n : ℚ) * 2 ^ a ≤ d * 10 ^ p := by
  rw [← Nat.cast_le (α := ℚ), Nat.cast_mul, ← sub_nonneg, sub_ratio,
    mul_nonneg_iff_of_pos_right (ratio_scale_pos n a p), sub_nonneg]

theorem ratio_lt_iff (n d : ℕ) (a p : ℤ) :
    (ratio n a (-p)).1 < d * (ratio n a (-p)).2 ↔ (n : ℚ) * 2 ^ a < d * 10 ^ p := by
  rw [← Nat.cast_lt (α := ℚ), Nat.cast_mul, ← sub_pos, sub_ratio,
    mul_pos_iff_of_pos_right (ratio_scale_pos n a p), sub_pos]

theorem le_ratio_iff (n d : ℕ) (a p : ℤ) :
    d * (ratio n a (-p)).2 ≤ (ratio n a (-p)).1 ↔ (d : ℚ) * 10 ^ p ≤ n * 2 ^ a := by
  rw [← not_lt, ratio_lt_iff, not_lt]

theorem lt_ratio_iff (n d : ℕ) (a p : ℤ) :
    d * (ratio n a (-p)).2 < (ratio n a (-p)).1 ↔ (d : ℚ) * 10 ^ p < n * 2 ^ a := by
  rw [← not_le, ratio_le_iff, not_le]

/-! ## The interval of a double -/

theorem reach_le (x : Binary) : x.reach ≤ 2 := by
  unfold reach
  split <;> decide

theorem low_eq (h : 0 < x.m) : x.low = (4 * x.m - x.reach : ℕ) * 2 ^ (x.q - 2) := by
  have hle : x.reach ≤ 4 * x.m := by
    have := x.reach_le
    omega
  rw [low, Nat.cast_sub hle, Nat.cast_mul, Nat.cast_ofNat]

theorem high_eq (x : Binary) : x.high = (4 * x.m + 2 : ℕ) * 2 ^ (x.q - 2) := by
  rw [high, Nat.cast_add, Nat.cast_mul, Nat.cast_ofNat, Nat.cast_ofNat]

/-- The test on whole numbers is the one on the interval. -/
theorem readsBack_iff (h : 0 < x.m) {d : ℕ} {p : ℤ} :
    x.readsBack d p = true ↔ x.Reads (d * 10 ^ p) := by
  have hreach : (if x.tight then 1 else 2) = x.reach := rfl
  unfold readsBack
  simp only [hreach]
  by_cases heven : x.m % 2 = 0
  · rw [if_pos heven, Bool.and_eq_true, decide_eq_true_eq, decide_eq_true_eq, ratio_le_iff, le_ratio_iff,
      ← low_eq h, ← high_eq]
    exact ⟨fun hle => ⟨hle.1, hle.2, absurd heven⟩, fun hr => ⟨hr.low_le, hr.le_high⟩⟩
  · rw [if_neg heven, Bool.and_eq_true, decide_eq_true_eq, decide_eq_true_eq, ratio_lt_iff, lt_ratio_iff,
      ← low_eq h, ← high_eq]
    constructor
    · rintro ⟨hlow, hhigh⟩
      exact ⟨hlow.le, hhigh.le, fun _ => ⟨hlow.ne, hhigh.ne⟩⟩
    · intro hr
      exact ⟨lt_of_le_of_ne hr.low_le (hr.inner heven).1, lt_of_le_of_ne hr.le_high (hr.inner heven).2⟩

/-- What reads back as a double is positive. -/
theorem Reads.pos (hx : x.Legal) {v : ℚ} (h : x.Reads v) : 0 < v := by
  refine lt_of_lt_of_le ?_ h.low_le
  have hreach := x.reach_le
  have hm := hx.pos
  rw [low_eq hm]
  exact mul_pos (Nat.cast_pos.mpr (by omega)) (by positivity)

/-- The lower end keeps above a quarter below the power of two that the leading bit stands for. -/
theorem Legal.le_sub_reach (hx : x.Legal) (hq : -1074 < x.q) : 2 ^ 54 - 1 ≤ 4 * x.m - x.reach := by
  have hm := hx.normal hq
  have hreach := x.reach_le
  by_cases htight : x.tight = true
  · have hone : x.reach = 1 := if_pos htight
    omega
  · have hne : x.m ≠ 2 ^ 52 := fun heq => htight (hx.tight_iff.mpr ⟨heq, hq⟩)
    omega

/-- The interval of a smaller double ends before that of a larger one begins, or where it begins if
one of the two is odd. -/
theorem high_le_low (hx : x.Legal) (hy : y.Legal) (h : x.q < y.q ∨ x.q = y.q ∧ x.m < y.m) :
    x.high ≤ y.low ∧ (x.high = y.low → x.m % 2 ≠ 0 ∨ y.m % 2 ≠ 0) := by
  obtain ⟨k, hk⟩ : ∃ k : ℕ, y.q - 2 = x.q - 2 + k := ⟨(y.q - x.q).toNat, by omega⟩
  have hscale : y.low = ((4 * y.m - y.reach) * 2 ^ k : ℕ) * 2 ^ (x.q - 2) := by
    rw [low_eq hy.pos, hk, zpow_add₀ (by norm_num), zpow_natCast, Nat.cast_mul, Nat.cast_pow,
      Nat.cast_ofNat]
    ring
  have hpos : (0 : ℚ) < 2 ^ (x.q - 2) := by positivity
  rw [hscale, high_eq, mul_le_mul_iff_left₀ hpos, Nat.cast_le, mul_left_inj' hpos.ne', Nat.cast_inj]
  have hreach := y.reach_le
  rcases h with h | ⟨hq, hm⟩
  · -- a power of two lies between them
    have hnormal := hy.le_sub_reach (lt_of_le_of_lt hx.least h)
    have hpow : 2 ≤ 2 ^ k := Nat.le_self_pow (by omega) 2
    have hmul : (4 * y.m - y.reach) * 2 ≤ (4 * y.m - y.reach) * 2 ^ k := Nat.mul_le_mul_left _ hpow
    have hlt := hx.lt
    omega
  · obtain rfl : k = 0 := by omega
    rw [pow_zero, mul_one]
    omega

/-- **A number reads back as one double at most.** -/
theorem eq_of_reads (hx : x.Legal) (hy : y.Legal) {v : ℚ} (hxv : x.Reads v) (hyv : y.Reads v) :
    x = y := by
  have hnot : ∀ {x y : Binary}, x.Legal → y.Legal → x.Reads v → y.Reads v →
      ¬ (x.q < y.q ∨ x.q = y.q ∧ x.m < y.m) := by
    intro x y hx hy hxv hyv h
    obtain ⟨hle, hodd⟩ := high_le_low hx hy h
    -- the number is where the one interval ends and the other begins
    have hxe : v = x.high := le_antisymm hxv.le_high (hle.trans hyv.low_le)
    have hye : y.low = v := le_antisymm hyv.low_le (hxv.le_high.trans hle)
    rcases hodd (hxe.symm.trans hye.symm) with hodd | hodd
    · exact (hxv.inner hodd).2 hxe
    · exact (hyv.inner hodd).1 hye
  have h₁ := hnot hx hy hxv hyv
  have h₂ := hnot hy hx hyv hxv
  exact (hx.fields_iff hy).mp ⟨by omega, by omega⟩

end Binary

end AttributeRegistry.Decimal
