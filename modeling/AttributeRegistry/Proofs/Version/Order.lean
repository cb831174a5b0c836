import AttributeRegistry.Proofs.Order.Canonical
import AttributeRegistry.Version.Basic
import Mathlib.Data.List.Induction

/-!
# The order of versions is total

`Version.compare` is transitive, and two versions that compare equal are equal: build metadata with
leading zeros included, since digits are told apart by their value and then by their length.

Both kinds of identifiers are compared by a `SortKey`: a class, a value, a length and a text, in that
order.
-/

namespace AttributeRegistry.Version

open Ordered

/-! ## Identifiers -/

/-- What the order of identifiers looks at. -/
structure SortKey where
  kind : Nat
  value : Nat
  length : Nat
  chars : List Char

/-- Keys are ordered by their parts, the first that differs decides. -/
def SortKey.compare (a b : SortKey) : Ordering :=
  (Ord.compare a.kind b.kind).then <|
  (Ord.compare a.value b.value).then <|
  (Ord.compare a.length b.length).then <|
  compareText a.chars b.chars

instance : Std.TransCmp compareText :=
  inferInstanceAs (Std.TransCmp (List.compareLex Ord.compare))

instance : Std.LawfulEqCmp compareText :=
  inferInstanceAs (Std.LawfulEqCmp (List.compareLex Ord.compare))

instance : Std.TransCmp SortKey.compare :=
  -- the instances for `fun a b => cmp (f a) (f b)` are not found by unification
  have h₁ := transCmp_comap Ord.compare SortKey.kind
  have h₂ := transCmp_comap Ord.compare SortKey.value
  have h₃ := transCmp_comap Ord.compare SortKey.length
  have h₄ := transCmp_comap compareText SortKey.chars
  have h₃₄ := @transCmp_then _ _ _ h₃ h₄
  have h₂₄ := @transCmp_then _ _ _ h₂ h₃₄
  @transCmp_then _ _ _ h₁ h₂₄

theorem SortKey.eq_of_compare {a b : SortKey} (h : SortKey.compare a b = .eq) : a = b := by
  obtain ⟨hk, h⟩ := Ordering.then_eq_eq.mp h
  obtain ⟨hv, h⟩ := Ordering.then_eq_eq.mp h
  obtain ⟨hl, hc⟩ := Ordering.then_eq_eq.mp h
  cases a
  cases b
  simp only [SortKey.mk.injEq]
  exact ⟨Std.LawfulEqCmp.eq_of_compare hk, Std.LawfulEqCmp.eq_of_compare hv,
    Std.LawfulEqCmp.eq_of_compare hl, Std.LawfulEqCmp.eq_of_compare hc⟩

instance : Std.LawfulEqCmp SortKey.compare where
  eq_of_compare := SortKey.eq_of_compare

/-- The key of a pre-release identifier. -/
def PreIdentifier.sortKey : PreIdentifier → SortKey
  | .number n => ⟨0, n, 0, []⟩
  | .word cs _ => ⟨1, 0, 0, cs⟩

theorem PreIdentifier.compare_eq (a b : PreIdentifier) :
    PreIdentifier.compare a b = SortKey.compare a.sortKey b.sortKey := by
  cases a <;> cases b <;>
    simp [PreIdentifier.compare, SortKey.compare, sortKey, Std.ReflCmp.compare_self] <;> rfl

theorem PreIdentifier.sortKey_injective (a b : PreIdentifier) (h : a.sortKey = b.sortKey) :
    a = b := by
  cases a <;> cases b <;> simp_all [sortKey]

instance : Std.TransCmp PreIdentifier.compare := by
  have h := transCmp_comap SortKey.compare PreIdentifier.sortKey
  rwa [show PreIdentifier.compare = _ from funext₂ PreIdentifier.compare_eq]

instance : Std.LawfulEqCmp PreIdentifier.compare := by
  have h := lawfulEqCmp_comap SortKey.compare PreIdentifier.sortKey_injective
  rwa [show PreIdentifier.compare = _ from funext₂ PreIdentifier.compare_eq]

/-! ## Digits -/

theorem digitsValue_append (cs : List Char) (c : Char) :
    digitsValue (cs ++ [c]) = 10 * digitsValue cs + (c.toNat - '0'.toNat) := by
  simp [digitsValue, List.foldl_append]

theorem toNat_of_isDigit {c : Char} (h : c.isDigit = true) :
    48 ≤ c.toNat ∧ c.toNat ≤ 57 := by
  simp only [Char.isDigit, Bool.and_eq_true, decide_eq_true_eq] at h
  exact ⟨h.1, h.2⟩

/-- A number is written by at most one text of digits of a given length. -/
theorem eq_of_digitsValue_eq {as bs : List Char} (ha : as.all Char.isDigit = true)
    (hb : bs.all Char.isDigit = true) (hl : as.length = bs.length)
    (hv : digitsValue as = digitsValue bs) : as = bs := by
  -- from the last digit: it is what the value leaves modulo ten
  induction as using List.reverseRecOn generalizing bs with
  | nil => exact (List.length_eq_zero_iff.mp hl.symm).symm
  | append_singleton as c ih =>
    rcases List.eq_nil_or_concat bs with rfl | ⟨bs, d, rfl⟩
    · simp at hl
    · rw [List.concat_eq_append] at *
      simp only [List.all_append, List.all_cons, List.all_nil, Bool.and_true,
        Bool.and_eq_true] at ha hb
      rw [digitsValue_append, digitsValue_append] at hv
      have hc := toNat_of_isDigit ha.2
      have hd := toNat_of_isDigit hb.2
      have h0 : '0'.toNat = 48 := rfl
      rw [h0] at hv
      have hcd : c.toNat = d.toNat := by omega
      rw [ih ha.1 hb.1 (by simpa using hl) (by omega), Char.toNat_inj.mp hcd]

/-- The key of a build identifier. -/
def BuildIdentifier.sortKey (a : BuildIdentifier) : SortKey :=
  if a.chars.all Char.isDigit then ⟨0, digitsValue a.chars, a.chars.length, []⟩
  else ⟨1, 0, 0, a.chars⟩

theorem BuildIdentifier.compare_eq (a b : BuildIdentifier) :
    BuildIdentifier.compare a b = SortKey.compare a.sortKey b.sortKey := by
  unfold BuildIdentifier.compare sortKey
  cases a.chars.all Char.isDigit <;> cases b.chars.all Char.isDigit <;>
    simp [SortKey.compare, Std.ReflCmp.compare_self] <;> rfl

theorem BuildIdentifier.sortKey_injective (a b : BuildIdentifier) (h : a.sortKey = b.sortKey) :
    a = b := by
  have hchars : a.chars = b.chars := by
    unfold sortKey at h
    by_cases ha : a.chars.all Char.isDigit <;> by_cases hb : b.chars.all Char.isDigit
    · rw [if_pos ha, if_pos hb] at h
      simp only [SortKey.mk.injEq] at h
      exact eq_of_digitsValue_eq ha hb h.2.2.1 h.2.1
    · rw [if_pos ha, if_neg hb] at h
      simp at h
    · rw [if_neg ha, if_pos hb] at h
      simp at h
    · rw [if_neg ha, if_neg hb] at h
      simpa using h
  cases a
  cases b
  simpa using hchars

instance : Std.TransCmp BuildIdentifier.compare := by
  have h := transCmp_comap SortKey.compare BuildIdentifier.sortKey
  rwa [show BuildIdentifier.compare = _ from funext₂ BuildIdentifier.compare_eq]

instance : Std.LawfulEqCmp BuildIdentifier.compare := by
  have h := lawfulEqCmp_comap SortKey.compare BuildIdentifier.sortKey_injective
  rwa [show BuildIdentifier.compare = _ from funext₂ BuildIdentifier.compare_eq]

/-! ## Versions -/

/-- A version without a pre-release comes last, the others go by their identifiers. -/
theorem comparePre_eq (a b : List PreIdentifier) :
    comparePre a b = (Ord.compare a.isEmpty.toNat b.isEmpty.toNat).then
      (List.compareLex PreIdentifier.compare a b) := by
  cases a <;> cases b <;> simp [comparePre] <;> rfl

instance : Std.TransCmp comparePre := by
  have h := transCmp_comap Ord.compare fun l : List PreIdentifier => l.isEmpty.toNat
  have h' := @transCmp_then _ _ (List.compareLex PreIdentifier.compare) h inferInstance
  rwa [show comparePre = _ from funext₂ comparePre_eq]

instance : Std.LawfulEqCmp comparePre where
  eq_of_compare := by
    intro a b h
    rw [comparePre_eq] at h
    exact Std.LawfulEqCmp.eq_of_compare (Ordering.then_eq_eq.mp h).2

instance : Std.TransCmp Version.compare :=
  have h₁ := transCmp_comap Ord.compare Version.major
  have h₂ := transCmp_comap Ord.compare Version.minor
  have h₃ := transCmp_comap Ord.compare Version.patch
  have h₄ := transCmp_comap comparePre Version.pre
  have h₅ := transCmp_comap (List.compareLex BuildIdentifier.compare) Version.build
  have h₄₅ := @transCmp_then _ _ _ h₄ h₅
  have h₃₅ := @transCmp_then _ _ _ h₃ h₄₅
  have h₂₅ := @transCmp_then _ _ _ h₂ h₃₅
  @transCmp_then _ _ _ h₁ h₂₅

/-- **Versions that compare equal are equal.** -/
theorem eq_of_compare {v w : Version} (h : Version.compare v w = .eq) : v = w := by
  obtain ⟨hmajor, h⟩ := Ordering.then_eq_eq.mp h
  obtain ⟨hminor, h⟩ := Ordering.then_eq_eq.mp h
  obtain ⟨hpatch, h⟩ := Ordering.then_eq_eq.mp h
  obtain ⟨hpre, hbuild⟩ := Ordering.then_eq_eq.mp h
  cases v
  cases w
  simp only [Version.mk.injEq]
  exact ⟨Std.LawfulEqCmp.eq_of_compare hmajor, Std.LawfulEqCmp.eq_of_compare hminor,
    Std.LawfulEqCmp.eq_of_compare hpatch, Std.LawfulEqCmp.eq_of_compare hpre,
    Std.LawfulEqCmp.eq_of_compare hbuild⟩

instance : Std.LawfulEqCmp Version.compare where
  eq_of_compare := eq_of_compare

end AttributeRegistry.Version
