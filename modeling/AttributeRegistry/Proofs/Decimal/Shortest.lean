import AttributeRegistry.Proofs.Decimal.Interval

/-!
# The shortest decimal reads back

Seventeen digits are always enough: one step of that grid is less than twice as wide as the way from a
double to the nearer end of its interval (`Binary.two_mul_reach_lt`), so that one of the double's
neighbours on the grid lies in the interval (`Binary.onGrid_ne_none`). The search for the shortest
decimal therefore ends with one that reads back (`Binary.reads_shortest`).
-/

namespace AttributeRegistry.Decimal

/-! ## Trailing zeros -/

/-- Zeros moved into the exponent change no value. -/
theorem value_stripZeros (steps d : ℕ) (p : ℤ) : (stripZeros steps d p).value = d * 10 ^ p := by
  induction steps generalizing d p with
  | zero => rfl
  | succ steps ih =>
    rw [stripZeros]
    split
    · next h =>
      have hd : (d : ℚ) = (d / 10 : ℕ) * 10 := by
        exact_mod_cast (Nat.div_mul_cancel (Nat.dvd_of_mod_eq_zero h.1)).symm
      rw [ih, hd, zpow_add_one₀ (by norm_num)]
      ring
    · rfl

/-! ## The leading digit -/

/-- The search for the leading digit ends below the number, if it can get there. -/
theorem leadingFrom_le {n d : ℕ} {steps : ℕ} {e : ℤ} (h : (10 : ℚ) ^ (e - steps) * d ≤ n) :
    (10 : ℚ) ^ leadingFrom n d steps e * d ≤ n := by
  induction steps generalizing e with
  | zero => rwa [Nat.cast_zero, sub_zero] at h
  | succ steps ih =>
    rw [leadingFrom]
    split
    · next hle =>
      have hpos : (0 : ℚ) < (ratio 1 0 e).2 := Nat.cast_pos.mpr (Binary.ratio_snd_pos 1 0 e)
      rw [← Nat.cast_le (α := ℚ), Nat.cast_mul, Nat.cast_mul, Binary.ratio_fst] at hle
      rw [← mul_le_mul_iff_left₀ hpos]
      calc _ = ((1 : ℕ) : ℚ) * 2 ^ (0 : ℤ) * 10 ^ e * (ratio 1 0 e).2 * d := by
              rw [Nat.cast_one, zpow_zero]
              ring
        _ ≤ _ := hle
    · refine ih ?_
      rw [Nat.cast_succ] at h
      rwa [show e - 1 - (steps : ℤ) = e - (steps + 1) by ring]

/-- How powers of ten and of two compare, for the exponents of a double. -/
theorem pow_le_pow_of_lt :
    (∀ n : ℕ, n < 1024 → 10 ^ ((n + 1) * 30103 / 100000) ≤ 2 ^ n * 10 ^ 3) ∧
      ∀ n : ℕ, n < 1074 → 2 ^ (n + 1) ≤ 10 ^ ((n * 30103 + 99999) / 100000 + 3) := by
  constructor
  · decide +kernel
  · decide +kernel

/-- The start of the search is at most four digits too large, for all sizes of a double. -/
theorem ten_pow_start_le {bits : ℤ} (hlow : -1074 < bits) (hhigh : bits ≤ 1024) :
    (10 : ℚ) ^ (bits * 30103 / 100000 - 3) ≤ 2 ^ (bits - 1) := by
  rcases Int.lt_or_le 0 bits with hbits | hbits
  · obtain ⟨n, rfl⟩ : ∃ n : ℕ, bits = n + 1 := ⟨(bits - 1).toNat, by omega⟩
    have h : ((10 ^ ((n + 1) * 30103 / 100000) : ℕ) : ℚ) ≤ (2 ^ n * 10 ^ 3 : ℕ) :=
      Nat.cast_le.mpr (pow_le_pow_of_lt.1 n (by omega))
    push_cast at h
    have hexp : ((n : ℤ) + 1) * 30103 / 100000 = ((n + 1) * 30103 / 100000 : ℕ) := by omega
    rw [hexp, zpow_sub₀ (by norm_num), div_le_iff₀ (by norm_num), add_sub_cancel_right]
    exact_mod_cast h
  · obtain ⟨n, rfl⟩ : ∃ n : ℕ, bits = -n := ⟨(-bits).toNat, by omega⟩
    have h : ((2 ^ (n + 1) : ℕ) : ℚ) ≤ (10 ^ ((n * 30103 + 99999) / 100000 + 3) : ℕ) :=
      Nat.cast_le.mpr (pow_le_pow_of_lt.2 n (by omega))
    push_cast at h
    have hexp : -(n : ℤ) * 30103 / 100000 - 3 = -((n * 30103 + 99999) / 100000 + 3 : ℕ) := by omega
    have hexp₂ : -(n : ℤ) - 1 = -(n + 1 : ℕ) := by omega
    rw [hexp, hexp₂, zpow_neg, zpow_neg, zpow_natCast, zpow_natCast]
    exact inv_anti₀ (by positivity) h

namespace Binary

variable {x : Binary}

theorem two_pow_le_value (h : 0 < x.m) : (2 : ℚ) ^ (x.m.log2 + x.q) ≤ x.value := by
  rw [zpow_add₀ (by norm_num), value, zpow_natCast]
  refine mul_le_mul_of_nonneg_right ?_ (by positivity)
  exact_mod_cast Nat.log2_self_le h.ne'

/-- The leading digit of a double is not above the double. -/
theorem ten_pow_leading_le (hx : x.Legal) : (10 : ℚ) ^ x.leading ≤ x.value := by
  have hlog : x.m.log2 < 53 := (Nat.log2_lt hx.pos.ne').mpr hx.lt
  have hstart : (10 : ℚ) ^ (((x.m.log2 + 1 + x.q) : ℤ) * 30103 / 100000 - 3) ≤
      2 ^ (((x.m.log2 + 1 + x.q) : ℤ) - 1) :=
    ten_pow_start_le (by have := hx.least; omega) (by have := hx.greatest; omega)
  have hpos : (0 : ℚ) < (ratio x.m x.q 0).2 := Nat.cast_pos.mpr (ratio_snd_pos x.m x.q 0)
  have hratio := ratio_fst x.m x.q 0
  rw [zpow_zero, mul_one] at hratio
  have hle : (10 : ℚ) ^ x.leading * (ratio x.m x.q 0).2 ≤ (ratio x.m x.q 0).1 := by
    refine leadingFrom_le ?_
    rw [hratio]
    refine mul_le_mul_of_nonneg_right ?_ hpos.le
    calc (10 : ℚ) ^ ((x.m.log2 + 1 + x.q) * 30103 / 100000 + 1 - (4 : ℕ))
        = 10 ^ ((x.m.log2 + 1 + x.q) * 30103 / 100000 - 3) := by
          congr 1
          omega
      _ ≤ 2 ^ (x.m.log2 + 1 + x.q - 1) := hstart
      _ = 2 ^ (x.m.log2 + x.q) := by
          congr 1
          omega
      _ ≤ x.value := two_pow_le_value hx.pos
  rw [hratio] at hle
  exact le_of_mul_le_mul_right hle hpos

/-! ## Seventeen digits -/

theorem low_eq_sub (x : Binary) : x.low = x.value - x.reach * 2 ^ (x.q - 2) := by
  rw [low, value, zpow_sub₀ (by norm_num)]
  ring

theorem high_eq_add (x : Binary) : x.high = x.value + 2 * 2 ^ (x.q - 2) := by
  rw [high, value, zpow_sub₀ (by norm_num)]
  ring

/-- The way to the lower end is more than `2⁻⁵⁴` of the value. -/
theorem value_le_reach (hx : x.Legal) : x.value ≤ 2 ^ 54 * (x.reach * 2 ^ (x.q - 2)) := by
  have hle : 4 * x.m ≤ 2 ^ 54 * x.reach := by
    by_cases htight : x.tight = true
    · rw [show x.reach = 1 from if_pos htight, (hx.tight_iff.mp htight).1]
      decide
    · rw [show x.reach = 2 from if_neg htight]
      have := hx.lt
      omega
  have hpos : (0 : ℚ) < 2 ^ (x.q - 2) := by positivity
  have hvalue : x.value = (4 * x.m : ℕ) * 2 ^ (x.q - 2) := by
    rw [value, zpow_sub₀ (by norm_num), Nat.cast_mul, Nat.cast_ofNat]
    ring
  rw [hvalue, ← mul_assoc]
  refine mul_le_mul_of_nonneg_right ?_ hpos.le
  exact_mod_cast hle

/-- A number nearer to the double than the lower end of its interval reads back. -/
theorem reads_of_near {v : ℚ} (hlow : x.value - v < x.reach * 2 ^ (x.q - 2))
    (hhigh : v - x.value < x.reach * 2 ^ (x.q - 2)) : x.Reads v := by
  have hreach : (x.reach : ℚ) ≤ 2 := by exact_mod_cast x.reach_le
  have hle : x.reach * (2 : ℚ) ^ (x.q - 2) ≤ 2 * 2 ^ (x.q - 2) :=
    mul_le_mul_of_nonneg_right hreach (by positivity)
  have h₁ : x.low < v := by
    rw [low_eq_sub]
    linarith
  have h₂ : v < x.high := by
    rw [high_eq_add]
    linarith
  exact ⟨h₁.le, h₂.le, fun _ => ⟨h₁.ne, h₂.ne⟩⟩

/-- The double's neighbours on a grid. -/
theorem below_le (x : Binary) (p : ℤ) :
    (((ratio x.m x.q (-p)).1 / (ratio x.m x.q (-p)).2 : ℕ) : ℚ) * 10 ^ p ≤ x.value ∧
      x.value < (((ratio x.m x.q (-p)).1 / (ratio x.m x.q (-p)).2 + 1 : ℕ) : ℚ) * 10 ^ p := by
  have hpos := ratio_snd_pos x.m x.q (-p)
  refine ⟨(le_ratio_iff _ _ _ _).mp (Nat.div_mul_le_self _ _), (ratio_lt_iff _ _ _ _).mp ?_⟩
  rw [mul_comm]
  exact Nat.lt_mul_div_succ _ hpos

theorem readsBack_of_onGrid {p : ℤ} {d : ℕ} (h : x.onGrid p = some d) : x.readsBack d p = true := by
  unfold onGrid at h
  dsimp only at h
  split at h
  · next hbelow habove =>
    split at h
    · cases h
      exact hbelow
    · split at h
      · cases h
        exact habove
      · split at h
        · cases h
          exact hbelow
        · cases h
          exact habove
  · next hbelow _ =>
    split at h
    · cases h
    · cases h
      exact hbelow
  · next _ habove =>
    cases h
    exact habove
  · cases h

/-- If a neighbour reads back, and the lower one is not zero, a neighbour is found. -/
theorem onGrid_ne_none_of_readsBack {p : ℤ} {below : ℕ}
    (hdiv : (ratio x.m x.q (-p)).1 / (ratio x.m x.q (-p)).2 = below) (hne : below ≠ 0)
    (h : x.readsBack below p = true ∨ x.readsBack (below + 1) p = true) : x.onGrid p ≠ none := by
  unfold onGrid
  dsimp only
  rw [hdiv, if_neg hne]
  split
  · split
    · nofun
    · split
      · nofun
      · split <;> nofun
  · nofun
  · nofun
  · next hbelow habove =>
    rw [hbelow, habove] at h
    exact absurd h (by decide)

/-- **On a grid with seventeen digits a neighbour of the double reads back.** -/
theorem onGrid_ne_none (hx : x.Legal) {p : ℤ} (h : (10 : ℚ) ^ (p + 16) ≤ x.value) :
    x.onGrid p ≠ none := by
  obtain ⟨hbelow, habove⟩ := below_le x p
  have hreach := value_le_reach hx
  have hunit : (0 : ℚ) < 10 ^ p := by positivity
  rw [zpow_add₀ (by norm_num)] at h
  -- one step of the grid is less than twice the way to the lower end
  have hstep : (10 : ℚ) ^ p < 2 * (x.reach * 2 ^ (x.q - 2)) := by
    norm_num at h hreach ⊢
    linarith
  generalize hdiv : (ratio x.m x.q (-p)).1 / (ratio x.m x.q (-p)).2 = below at hbelow habove
  have hne : below ≠ 0 := by
    rintro rfl
    norm_num at h habove
    linarith
  rw [Nat.cast_succ, add_mul, one_mul] at habove
  refine onGrid_ne_none_of_readsBack hdiv hne ?_
  rcases le_total (x.value - below * 10 ^ p) (10 ^ p / 2) with hhalf | hhalf
  · exact .inl ((readsBack_iff hx.pos).mpr (reads_of_near (by linarith) (by linarith)))
  · refine .inr ((readsBack_iff hx.pos).mpr (reads_of_near ?_ ?_))
    · rw [Nat.cast_succ]
      linarith
    · rw [Nat.cast_succ]
      linarith

/-! ## The search -/

theorem reads_search (hx : x.Legal) {grids count : ℕ} (hpos : 0 < grids) (hcount : grids + count = 18) :
    x.Reads (x.search grids count).value := by
  induction grids generalizing count with
  | zero => exact absurd hpos (Nat.lt_irrefl 0)
  | succ grids ih =>
    rw [search]
    split
    · next d hgrid =>
      rw [value_stripZeros]
      exact (readsBack_iff hx.pos).mp (readsBack_of_onGrid hgrid)
    · next hgrid =>
      refine ih (Nat.pos_of_ne_zero ?_) (by omega)
      -- the last grid has seventeen digits
      rintro rfl
      refine onGrid_ne_none hx ?_ hgrid
      have hlead := ten_pow_leading_le hx
      rwa [show x.leading - (count : ℤ) + 1 + 16 = x.leading by omega]

/-- **The shortest decimal of a double reads back as the double.** -/
theorem reads_shortest (hx : x.Legal) : x.Reads x.shortest.value :=
  reads_search hx (by decide) rfl

/-- **Different doubles have different shortest decimals.** -/
theorem eq_of_shortest_value (hx : x.Legal) {y : Binary} (hy : y.Legal)
    (h : x.shortest.value = y.shortest.value) : x = y :=
  eq_of_reads hx hy (reads_shortest hx) (h ▸ reads_shortest hy)

end Binary

end AttributeRegistry.Decimal
