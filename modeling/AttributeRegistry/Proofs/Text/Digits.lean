/-!
# Numbers in digits

A natural number is written with at least one digit, the first of them a zero only for zero itself, and
its digits read as the number again (`ofDigitChars_natText`). An integer below zero is written as a
minus and its magnitude, so integers too are told apart by how they are written (`intText_inj`).
-/

namespace AttributeRegistry.Text

/-! ## Natural numbers -/

theorem natText_ne_nil (n : Nat) : (toString n).toList ≠ [] := by
  rw [Nat.toString_eq_repr, Nat.toList_repr]
  exact Nat.toDigits_ne_nil

theorem isDigit_of_mem_natText {n : Nat} : ∀ c ∈ (toString n).toList, c.isDigit = true := by
  intro c hc
  rw [Nat.toString_eq_repr, Nat.toList_repr] at hc
  exact Nat.isDigit_of_mem_toDigits (by decide) (by decide) hc

theorem ofDigitChars_natText (n : Nat) : Nat.ofDigitChars 10 (toString n).toList 0 = n := by
  rw [Nat.toString_eq_repr, Nat.toList_repr]
  exact Nat.ofDigitChars_ten_toDigits

theorem natText_inj {m n : Nat} (h : (toString m).toList = (toString n).toList) : m = n := by
  rw [← ofDigitChars_natText m, h, ofDigitChars_natText]

/-- Only zero is written with a zero in front. -/
theorem head_toDigits {n : Nat} (h : 0 < n) : (Nat.toDigits 10 n).head? ≠ some '0' := by
  induction n using Nat.strongRecOn with
  | ind n ih =>
    rw [Nat.toDigits_eq_if (by decide)]
    split
    · next hlt =>
      intro hzero
      have hchar := congrArg Char.toNat (Option.some.inj hzero)
      rw [Nat.toNat_digitChar_of_lt_ten hlt, show '0'.toNat = 48 from rfl] at hchar
      omega
    · -- the first digit of `n` is that of `n / 10`
      obtain ⟨c, cs, hdigits⟩ := List.exists_cons_of_ne_nil
        (@Nat.toDigits_ne_nil (n / 10) 10)
      have hhead := ih (n / 10) (by omega) (by omega)
      rw [hdigits] at hhead
      rw [hdigits]
      exact hhead

theorem natText_ne_leadingZero {n : Nat} {c : Char} {cs : List Char} :
    (toString n).toList ≠ '0' :: c :: cs := by
  intro h
  rw [Nat.toString_eq_repr, Nat.toList_repr] at h
  by_cases hn : 0 < n
  · refine head_toDigits hn ?_
    rw [h, List.head?_cons]
  · rw [Nat.eq_zero_of_not_pos hn, Nat.toDigits_zero] at h
    simp at h

/-! ## Integers -/

theorem toList_negSucc (n : Nat) :
    (toString (Int.negSucc n)).toList = '-' :: (toString (n + 1)).toList :=
  String.toList_append

theorem natText_ne_minus {n : Nat} {cs : List Char} : (toString n).toList ≠ '-' :: cs := by
  intro h
  have hdigit := isDigit_of_mem_natText (n := n) '-' (h ▸ List.mem_cons_self)
  exact absurd hdigit (by decide)

theorem intText_ne_nil (n : Int) : (toString n).toList ≠ [] := by
  cases n with
  | ofNat n => exact natText_ne_nil n
  | negSucc n =>
    rw [toList_negSucc]
    exact List.cons_ne_nil _ _

theorem intText_inj {m n : Int} (h : (toString m).toList = (toString n).toList) : m = n := by
  cases m with
  | ofNat m =>
    cases n with
    | ofNat n => exact congrArg Int.ofNat (natText_inj h)
    | negSucc n => exact absurd (h.trans (toList_negSucc n)) natText_ne_minus
  | negSucc m =>
    cases n with
    | ofNat n => exact absurd (h.symm.trans (toList_negSucc m)) natText_ne_minus
    | negSucc n =>
      rw [toList_negSucc, toList_negSucc] at h
      exact congrArg Int.negSucc (Nat.succ.inj (natText_inj (List.cons.inj h).2))

end AttributeRegistry.Text
