import AttributeRegistry.Proofs.Decimal.Written

/-!
# When doubles are equal

Doubles are compared by value: the two zeros are equal, and what is no number equals nothing, not even
itself. Everywhere else equality is that of signs and magnitudes (`beq_iff`).
-/

namespace AttributeRegistry.Decimal

open Float.Model (UnpackedFloat Format)
open Float.Model.UnpackedFloat (Sign unpackMantissa unpackExponent unpackSign)

/-! ## Fields of a double -/

/-- The bits that a double is unpacked from. -/
def bitsOf (f : Float) : BitVec (Format.numBits .binary64) :=
  f.toModel.toBits.toBitVec

theorem toNat_unpackMantissa (f : Float) : (unpackMantissa (bitsOf f)).toNat = fractionField f := by
  change (f.toBits.toNat >>> 0) % 2 ^ 52 = f.toBits.toNat % 2 ^ 52
  rw [Nat.shiftRight_zero]

theorem toNat_unpackExponent (f : Float) : (unpackExponent (bitsOf f)).toNat = exponentField f := by
  change (f.toBits.toNat >>> 52) % 2 ^ 11 = f.toBits.toNat / 2 ^ 52 % 2 ^ 11
  rw [Nat.shiftRight_eq_div_pow]

theorem toNat_unpackSign (f : Float) : (unpackSign (bitsOf f)).toNat = f.toBits.toNat / 2 ^ 63 := by
  have hlt : f.toBits.toNat < 2 ^ 64 := f.toBits.toNat_lt
  change (f.toBits.toNat >>> 63) % 2 = f.toBits.toNat / 2 ^ 63
  rw [Nat.shiftRight_eq_div_pow]
  omega

/-- The sign of a double that is negative or not. -/
def signOf (negative : Bool) : Sign :=
  if negative then .negative else .positive

theorem ofBitVec_unpackSign (f : Float) : Sign.ofBitVec (unpackSign (bitsOf f)) = signOf (decode f).1 := by
  have hlt : f.toBits.toNat < 2 ^ 64 := f.toBits.toNat_lt
  have hsign : unpackSign (bitsOf f) = 0#1 ↔ ¬ f.toBits.toNat / 2 ^ 63 = 1 := by
    rw [← BitVec.toNat_inj, toNat_unpackSign]
    change f.toBits.toNat / 2 ^ 63 = 0 ↔ _
    omega
  rw [decode_eq, signOf, Sign.ofBitVec]
  simp only [hsign, decide_eq_true_eq, ite_not]

/-- What a magnitude with a sign is unpacked to. -/
inductive Unpacked (s : Sign) : Magnitude → UnpackedFloat → Prop
  | nan : Unpacked s .nan .notANumber
  | infinite : Unpacked s .infinite (.infinity s)
  | zero : Unpacked s .zero (.zero s)
  | finite {x : Binary} (h : 0 < x.m) : Unpacked s (.finite x) (.finite s x.m x.q h)

theorem Unpacked.of_eq {s : Sign} {x : Binary} {m : ℕ} {q : ℤ} (h : 0 < m) (hm : m = x.m)
    (hq : q = x.q) : Unpacked s (.finite x) (.finite s m q h) := by
  subst hm hq
  exact .finite h

/-- **A double is unpacked to its sign and magnitude.** -/
theorem unpacked_decode (f : Float) :
    Unpacked (signOf (decode f).1) (decode f).2 (UnpackedFloat.unpack .binary64 (bitsOf f)) := by
  have hexponent := toNat_unpackExponent f
  have hfraction := toNat_unpackMantissa f
  have hones : unpackExponent (bitsOf f) = -1#_ ↔ exponentField f = 2047 := by
    rw [← BitVec.toNat_inj, hexponent]
    rfl
  have hzeros : unpackExponent (bitsOf f) = 0#_ ↔ exponentField f = 0 := by
    rw [← BitVec.toNat_inj, hexponent]
    rfl
  have hnone : unpackMantissa (bitsOf f) = 0#_ ↔ fractionField f = 0 := by
    rw [← BitVec.toNat_inj, hfraction]
    rfl
  -- the implicit bit
  have hnormal : (1#1 ++ unpackMantissa (bitsOf f)).toNat = 2 ^ 52 + fractionField f := by
    change 2 ^ 52 ||| (unpackMantissa (bitsOf f)).toNat = _
    rw [Nat.or_comm, Nat.or_two_pow_eq_add_of_lt (unpackMantissa (bitsOf f)).isLt, Nat.add_comm, hfraction]
  unfold UnpackedFloat.unpack
  dsimp only
  rw [ofBitVec_unpackSign]
  have hmagnitude : (decode f).2 = .ofFields (exponentField f) (fractionField f) := by rw [decode_eq]
  rw [hmagnitude, Magnitude.ofFields]
  by_cases hspecial : exponentField f = 2047
  · rw [if_pos (hones.mpr hspecial), if_pos hspecial]
    by_cases hzero : fractionField f = 0
    · rw [if_pos (hnone.mpr hzero), if_pos hzero]
      exact .infinite
    · rw [if_neg (mt hnone.mp hzero), if_neg hzero]
      exact .nan
  · rw [if_neg (mt hones.mp hspecial), if_neg hspecial]
    by_cases hsmall : exponentField f = 0
    · rw [if_pos (hzeros.mpr hsmall), if_pos hsmall]
      by_cases hzero : fractionField f = 0
      · rw [dif_pos (hnone.mpr hzero), if_pos hzero]
        exact .zero
      · rw [dif_neg (mt hnone.mp hzero), if_neg hzero]
        refine .of_eq _ hfraction ?_
        rw [hexponent, hsmall]
        rfl
    · rw [if_neg (mt hzeros.mp hsmall), if_neg hsmall]
      refine .of_eq _ hnormal ?_
      rw [hexponent]
      rfl

/-- The numbers are the doubles that are finite. -/
theorem isNumber_decode (f : Float) : (decode f).2.isNumber = f.isFinite := by
  have h := unpacked_decode f
  change _ = (UnpackedFloat.unpack .binary64 (bitsOf f)).isFinite
  generalize UnpackedFloat.unpack .binary64 (bitsOf f) = u at h
  generalize (decode f).2 = a at h
  cases h <;> rfl

theorem isNaN_iff (f : Float) : f.isNaN = true ↔ (decode f).2 = .nan := by
  have h := unpacked_decode f
  change (UnpackedFloat.unpack .binary64 (bitsOf f)).isNaN = true ↔ _
  generalize UnpackedFloat.unpack .binary64 (bitsOf f) = u at h
  generalize (decode f).2 = a at h
  cases h with
  | nan => exact ⟨fun _ => rfl, fun _ => rfl⟩
  | _ => exact ⟨nofun, nofun⟩

/-! ## Comparing -/

theorem signOf_inj {s t : Bool} : signOf s = signOf t ↔ s = t := by
  cases s <;> cases t <;> simp [signOf]

/-- Comparing magnitudes with their signs. -/
theorem compare_eq_iff {s t : Sign} {a b : Magnitude} {u v : UnpackedFloat} (ha : a.Legal) (hb : b.Legal)
    (hu : Unpacked s a u) (hv : Unpacked t b v) :
    u.compare v = some .eq ↔ a ≠ .nan ∧ (s = t ∧ a = b ∨ a = .zero ∧ b = .zero) := by
  -- only infinities of one sign, and finite magnitudes of one sign, have something to compare
  cases hu <;> cases hv <;> cases s <;> cases t <;> dsimp only [UnpackedFloat.compare] <;> simp
  case infinite.infinite.positive.positive => rfl
  case infinite.infinite.negative.negative => rfl
  case finite.finite.positive.positive => exact Binary.Legal.fields_iff ha hb
  case finite.finite.negative.negative => exact Binary.Legal.fields_iff ha hb

/-- **Doubles are equal exactly if their signs and magnitudes are and they are numbers or infinite, or
if both are zero.** -/
theorem beq_iff {f g : Float} : (f == g) = true ↔
    (decode f).2 ≠ .nan ∧ (decode f = decode g ∨ (decode f).2 = .zero ∧ (decode g).2 = .zero) := by
  have hbeq : (f == g) = (UnpackedFloat.compare (UnpackedFloat.unpack .binary64 (bitsOf f))
      (UnpackedFloat.unpack .binary64 (bitsOf g)) == some .eq) := rfl
  rw [hbeq, beq_iff_eq, compare_eq_iff (legal_magnitude f) (legal_magnitude g) (unpacked_decode f)
    (unpacked_decode g), signOf_inj, ← Prod.ext_iff]

end AttributeRegistry.Decimal
