import AttributeRegistry.Json.Reader
import AttributeRegistry.Proofs.Text.Digits

/-!
# Reading numbers

A number is read in the same way wherever it stands, as long as the text behind it does not go on with
a character of numbers (`part_readNumber`). So what is known of a number as a whole text holds inside a
document too.

Main statement: an integer that fits 64 bits reads back (`readNumber_natText`, `readNumber_negative`).
-/

namespace AttributeRegistry.Json

open Text (natText_ne_leadingZero isDigit_of_mem_natText natText_ne_nil ofDigitChars_natText)

/-! ## Where a number ends -/

/-- A character that a number may go on with. -/
def goesOn (c : Char) : Bool :=
  c.isDigit || c = '.' || c = 'e' || c = 'E' || c = '+' || c = '-'

/-- A text that no number goes on with. -/
def Ends (rest : List Char) : Prop :=
  ∀ c ∈ rest.head?, goesOn c = false

theorem ends_nil : Ends [] := by
  rintro c ⟨⟩

theorem ends_cons {c : Char} {cs : List Char} : Ends (c :: cs) ↔ goesOn c = false := by
  simp [Ends]

variable {rest : List Char}

theorem Ends.startsWithDigit_eq (h : Ends rest) : startsWithDigit rest = false := by
  cases rest with
  | nil => rfl
  | cons c cs =>
    have hc := ends_cons.mp h
    simp only [goesOn, Bool.or_eq_false_iff] at hc
    exact hc.1.1.1.1.1

/-- The character a text that ends a number begins with is none of these. -/
theorem Ends.ne {c : Char} {cs : List Char} (h : Ends (c :: cs)) :
    c.isDigit = false ∧ c ≠ '.' ∧ c ≠ 'e' ∧ c ≠ 'E' := by
  have hc := ends_cons.mp h
  simp only [goesOn, Bool.or_eq_false_iff, decide_eq_false_iff_not] at hc
  exact ⟨hc.1.1.1.1.1, hc.1.1.1.1.2, hc.1.1.1.2, hc.1.1.2⟩

theorem startsWithDigit_append (h : Ends rest) (cs : List Char) :
    startsWithDigit (cs ++ rest) = startsWithDigit cs := by
  cases cs with
  | nil => exact h.startsWithDigit_eq
  | cons c cs => rfl

theorem takeWhile_append (h : Ends rest) (cs : List Char) :
    (cs ++ rest).takeWhile Char.isDigit = cs.takeWhile Char.isDigit := by
  induction cs with
  | nil =>
    cases rest with
    | nil => rfl
    | cons c cs => exact List.takeWhile_cons_of_neg (by simp [h.ne.1])
  | cons c cs ih => rw [List.cons_append, List.takeWhile_cons, List.takeWhile_cons, ih]

theorem dropWhile_append (h : Ends rest) (cs : List Char) :
    (cs ++ rest).dropWhile Char.isDigit = cs.dropWhile Char.isDigit ++ rest := by
  induction cs with
  | nil =>
    cases rest with
    | nil => rfl
    | cons c cs => exact List.dropWhile_cons_of_neg (by simp [h.ne.1])
  | cons c cs ih =>
    rw [List.cons_append, List.dropWhile_cons, List.dropWhile_cons, ih]
    split <;> rfl

/-! ## Digits -/

theorem significand_append (h : Ends rest) (n : Nat) (cs : List Char) :
    significand n (cs ++ rest) = ((significand n cs).1, (significand n cs).2 ++ rest) := by
  induction cs generalizing n with
  | nil =>
    cases rest with
    | nil => rfl
    | cons c cs =>
      rw [List.nil_append, significand.eq_2, if_neg (by simp [h.ne.1])]
      rfl
  | cons c cs ih =>
    rw [List.cons_append, significand, significand]
    split
    · exact ih _
    · rfl

theorem suffix_significand (n : Nat) (cs : List Char) : (significand n cs).2 <:+ cs := by
  induction cs generalizing n with
  | nil => exact List.suffix_rfl
  | cons c cs ih =>
    rw [significand]
    split
    · exact (ih _).trans (List.suffix_cons c cs)
    · exact List.suffix_rfl

theorem le_ofDigitChars (n : Nat) (cs : List Char) : n ≤ Nat.ofDigitChars 10 cs n := by
  induction cs generalizing n with
  | nil => exact Nat.le_refl n
  | cons c cs ih =>
    have hstep := ih (10 * n + (c.toNat - '0'.toNat))
    rw [Nat.ofDigitChars_cons]
    omega

/-- Digits whose number stays below `2^64` are read as that number. -/
theorem significand_digits {cs : List Char} {n : Nat} (hdigits : ∀ c ∈ cs, c.isDigit = true)
    (hlt : Nat.ofDigitChars 10 cs n < Nat.pow 2 64) : significand n cs = (Nat.ofDigitChars 10 cs n, []) := by
  induction cs generalizing n with
  | nil => rfl
  | cons c cs ih =>
    rw [List.forall_mem_cons] at hdigits
    rw [Nat.ofDigitChars_cons] at hlt ⊢
    have hle := le_ofDigitChars (10 * n + (c.toNat - '0'.toNat)) cs
    rw [significand, if_pos ⟨hdigits.1, Nat.lt_of_le_of_lt hle hlt⟩]
    exact ih hdigits.2 hlt

/-! ## A part of a longer text -/

/-- What is read of a text is its beginning, and is read in the same way in front of a text that no
number goes on with. -/
def PartAt {α : Type} (r : Reader α) (cs : List Char) : Prop :=
  ∀ a last, r cs = .ok (a, last) →
    last <:+ cs ∧ ∀ rest, Ends rest → r (cs ++ rest) = .ok (a, last ++ rest)

/-- A reader whose texts are parts of longer ones. -/
def Part {α : Type} (r : Reader α) : Prop :=
  ∀ cs, PartAt r cs

section

variable {α : Type} {r r' : Reader α} {cs cs' : List Char}

theorem partAt_of_ok {a : α} (hsuffix : cs' <:+ cs)
    (h : ∀ rest, Ends rest → r (cs ++ rest) = .ok (a, cs' ++ rest)) : PartAt r cs := by
  have hread := h [] ends_nil
  rw [List.append_nil, List.append_nil] at hread
  intro b last hlast
  rw [hread] at hlast
  cases hlast
  exact ⟨hsuffix, h⟩

theorem partAt_of_error (h : ∃ f, r cs = .error f) : PartAt r cs := by
  obtain ⟨f, hf⟩ := h
  intro a last hlast
  rw [hf] at hlast
  cases hlast

/-- A reader that goes on as another one does, behind a part of the text. -/
theorem PartAt.of_goesOn (h : PartAt r' cs') (hsuffix : cs' <:+ cs)
    (hgo : ∀ rest, Ends rest → r (cs ++ rest) = r' (cs' ++ rest)) : PartAt r cs := by
  have hread := hgo [] ends_nil
  rw [List.append_nil, List.append_nil] at hread
  intro a last hlast
  rw [hread] at hlast
  obtain ⟨hlast, hpart⟩ := h a last hlast
  refine ⟨hlast.trans hsuffix, fun rest hrest => ?_⟩
  rw [hgo rest hrest, hpart rest hrest]

end

section Parts

variable {positive : Bool} {n : Nat} {e : Int}

theorem part_readScaled : Part (readScaled positive n e) := by
  intro cs
  unfold readScaled
  cases scale 4 (UInt64.ofNat n).toFloat e with
  | some x => exact partAt_of_ok List.suffix_rfl fun rest _ => rfl
  | none => exact partAt_of_error ⟨_, rfl⟩

/-! ### Exponents -/

theorem readExponentDigits_end {up : Bool} {k : Nat} {cs : List Char}
    (h : startsWithDigit cs = false) : readExponentDigits positive n e up k cs =
      readScaled positive n (if up then e + k else e - k) cs := by
  cases cs with
  | nil => rfl
  | cons c cs =>
    have hdigit : c.isDigit = false := h
    rw [readExponentDigits, if_neg (by simp [hdigit])]

theorem part_readExponentDigits {up : Bool} (k : Nat) :
    Part (readExponentDigits positive n e up k) := by
  intro cs
  induction cs generalizing k with
  | nil => exact (part_readScaled []).of_goesOn List.suffix_rfl fun rest hrest =>
      readExponentDigits_end hrest.startsWithDigit_eq
  | cons c cs ih =>
    by_cases hdigit : c.isDigit = true
    · have hstep : ∀ cs, readExponentDigits positive n e up k (c :: cs) =
          if 10 * k + digitValue c < Nat.pow 2 31 then
            readExponentDigits positive n e up (10 * k + digitValue c) cs
          else if n ≠ 0 ∧ up then failAt .numberOutOfRange cs
          else .ok (.float (if positive then 0.0 else -0.0), cs.dropWhile Char.isDigit) := by
        intro cs
        rw [readExponentDigits, if_pos hdigit]
      by_cases hlt : 10 * k + digitValue c < Nat.pow 2 31
      · have hgo : ∀ rest, Ends rest → readExponentDigits positive n e up k (c :: cs ++ rest) =
            readExponentDigits positive n e up (10 * k + digitValue c) (cs ++ rest) := by
          intro rest _
          rw [List.cons_append, hstep, if_pos hlt]
        exact (ih _).of_goesOn (List.suffix_cons c cs) hgo
      · -- an exponent this large leaves a zero, if anything
        by_cases hup : n ≠ 0 ∧ up = true
        · refine partAt_of_error ?_
          rw [hstep, if_neg hlt, if_pos hup]
          exact ⟨_, rfl⟩
        · have hread : ∀ rest, Ends rest → readExponentDigits positive n e up k (c :: cs ++ rest) =
              .ok (.float (if positive then 0.0 else -0.0), cs.dropWhile Char.isDigit ++ rest) := by
            intro rest hrest
            rw [List.cons_append, hstep, if_neg hlt, if_neg hup, dropWhile_append hrest]
          exact partAt_of_ok ((List.dropWhile_suffix _).trans (List.suffix_cons c cs)) hread
    · exact (part_readScaled (c :: cs)).of_goesOn List.suffix_rfl fun rest _ =>
        readExponentDigits_end (Bool.eq_false_iff.mpr hdigit)

/-- The digits of an exponent whose sign was read. -/
def readSigned (positive : Bool) (n : Nat) (e : Int) (up : Bool) : Reader Json
  | [] => failAt .eofInValue []
  | c :: rest =>
    if c.isDigit then readExponentDigits positive n e up (digitValue c) rest
    else failAhead .invalidNumber (c :: rest) 1

theorem part_readSigned {up : Bool} : Part (readSigned positive n e up) := by
  intro cs
  cases cs with
  | nil => exact partAt_of_error ⟨_, rfl⟩
  | cons c cs =>
    by_cases hdigit : c.isDigit = true
    · exact (part_readExponentDigits (digitValue c) cs).of_goesOn (List.suffix_cons c cs)
        fun rest _ => if_pos hdigit
    · refine partAt_of_error ?_
      rw [readSigned, if_neg hdigit]
      exact ⟨_, rfl⟩

theorem readExponent_unsigned {c : Char} (hplus : c ≠ '+') (hminus : c ≠ '-') (cs : List Char) :
    readExponent positive n e (c :: cs) = readSigned positive n e true (c :: cs) := by
  unfold readExponent
  split
  next up digits heq =>
    split at heq
    · next h => exact absurd (List.cons.inj h).1 hplus
    · next h => exact absurd (List.cons.inj h).1 hminus
    · cases heq
      rfl

theorem part_readExponent : Part (readExponent positive n e) := by
  intro cs
  cases cs with
  | nil => exact partAt_of_error ⟨_, rfl⟩
  | cons c cs =>
    by_cases hplus : c = '+'
    · subst hplus
      exact (part_readSigned cs).of_goesOn (List.suffix_cons _ cs) fun rest _ => rfl
    by_cases hminus : c = '-'
    · subst hminus
      exact (part_readSigned cs).of_goesOn (List.suffix_cons _ cs) fun rest _ => rfl
    exact (part_readSigned (c :: cs)).of_goesOn List.suffix_rfl fun rest _ =>
      readExponent_unsigned hplus hminus (cs ++ rest)

/-! ### Fractions -/

theorem readScale_ends (h : Ends rest) :
    readScale positive n e rest = readScaled positive n e rest := by
  cases rest with
  | nil => rfl
  | cons c cs => exact if_neg (not_or.mpr h.ne.2.2)

theorem part_readScale : Part (readScale positive n e) := by
  intro cs
  cases cs with
  | nil => exact (part_readScaled []).of_goesOn List.suffix_rfl fun rest => readScale_ends
  | cons c cs =>
    by_cases hmark : c = 'e' ∨ c = 'E'
    · exact (part_readExponent cs).of_goesOn (List.suffix_cons c cs) fun rest _ => if_pos hmark
    · exact (part_readScaled (c :: cs)).of_goesOn List.suffix_rfl fun rest _ => if_neg hmark

theorem part_readFraction : Part (readFraction positive n e) := by
  intro cs
  have hsignificand := suffix_significand n cs
  -- the digits, and how many there are, do not depend on what follows
  have hstep : ∀ rest, Ends rest → readFraction positive n e (cs ++ rest) =
      if startsWithDigit (significand n cs).2 then
        readScale positive (significand n cs).1
          (e - ((cs.length - (significand n cs).2.length : Nat) : Int))
          ((significand n cs).2.dropWhile Char.isDigit ++ rest)
      else if ((cs.length - (significand n cs).2.length : Nat) : Int) = 0 then
        if (significand n cs).2 ++ rest = [] then failAt .eofInValue []
        else failAhead .invalidNumber ((significand n cs).2 ++ rest) 1
      else readScale positive (significand n cs).1
        (e - ((cs.length - (significand n cs).2.length : Nat) : Int)) ((significand n cs).2 ++ rest) := by
    intro rest hrest
    have hlength : (cs ++ rest).length - ((significand n cs).2 ++ rest).length =
        cs.length - (significand n cs).2.length := by
      rw [List.length_append, List.length_append]
      omega
    unfold readFraction
    dsimp only
    rw [significand_append hrest, startsWithDigit_append hrest, hlength, dropWhile_append hrest]
  by_cases hdigit : startsWithDigit (significand n cs).2 = true
  · exact (part_readScale _).of_goesOn ((List.dropWhile_suffix _).trans hsignificand)
      fun rest hrest => (hstep rest hrest).trans (if_pos hdigit)
  by_cases hplaces : ((cs.length - (significand n cs).2.length : Nat) : Int) = 0
  · refine partAt_of_error ?_
    have hread := hstep [] ends_nil
    rw [List.append_nil, List.append_nil, if_neg hdigit, if_pos hplaces] at hread
    rw [hread]
    split <;> exact ⟨_, rfl⟩
  · exact (part_readScale _).of_goesOn hsignificand fun rest hrest =>
      (hstep rest hrest).trans ((if_neg hdigit).trans (if_neg hplaces))

/-! ### Whole numbers -/

/-- A number without fraction and exponent ends before any other character. -/
theorem readTail_ends (h : Ends rest) : readTail positive n rest = .ok (readTail.whole positive n, rest) := by
  cases rest with
  | nil => rfl
  | cons c cs =>
    obtain ⟨-, hpoint, hexponent⟩ := h.ne
    rw [readTail.eq_2 _ _ _ _ hpoint]
    exact if_neg (not_or.mpr hexponent)

theorem part_readTail : Part (readTail positive n) := by
  intro cs
  cases cs with
  | nil => exact partAt_of_ok List.suffix_rfl fun rest => readTail_ends
  | cons c cs =>
    by_cases hpoint : c = '.'
    · subst hpoint
      exact (part_readFraction cs).of_goesOn (List.suffix_cons _ cs) fun rest _ => rfl
    by_cases hmark : c = 'e' ∨ c = 'E'
    · exact (part_readExponent cs).of_goesOn (List.suffix_cons c cs) fun rest _ =>
        (readTail.eq_2 _ _ _ _ hpoint).trans (if_pos hmark)
    · exact partAt_of_ok List.suffix_rfl fun rest _ =>
        (readTail.eq_2 _ _ _ _ hpoint).trans (if_neg hmark)

/-- What may follow digits of which the last ones only count as places. -/
def readPlaces (positive : Bool) (n : Nat) (places : Nat) : Reader Json
  | '.' :: rest => readFraction positive n places rest
  | rest => readScale positive n places rest

theorem readPlaces_ne {c : Char} (hpoint : c ≠ '.') (places : Nat) (cs : List Char) :
    readPlaces positive n places (c :: cs) = readScale positive n places (c :: cs) :=
  readPlaces.eq_2 _ _ _ _ fun _ h => hpoint (List.cons.inj h).1

theorem readPlaces_ends {places : Nat} (h : Ends rest) :
    readPlaces positive n places rest = readScale positive n places rest := by
  cases rest with
  | nil => rfl
  | cons c cs => exact readPlaces_ne h.ne.2.1 places cs

theorem part_readPlaces {places : Nat} : Part (readPlaces positive n places) := by
  intro cs
  cases cs with
  | nil => exact (part_readScale []).of_goesOn List.suffix_rfl fun rest => readPlaces_ends
  | cons c cs =>
    by_cases hpoint : c = '.'
    · subst hpoint
      exact (part_readFraction cs).of_goesOn (List.suffix_cons _ cs) fun rest _ => rfl
    · exact (part_readScale (c :: cs)).of_goesOn List.suffix_rfl fun rest _ =>
        readPlaces_ne hpoint places (cs ++ rest)

theorem readNumber_cons {c : Char} (hzero : c ≠ '0') (cs : List Char) :
    readNumber positive (c :: cs) =
      if c.isDigit then
        if startsWithDigit (significand 0 (c :: cs)).2 then
          readPlaces positive (significand 0 (c :: cs)).1
            ((significand 0 (c :: cs)).2.takeWhile Char.isDigit).length
            ((significand 0 (c :: cs)).2.dropWhile Char.isDigit)
        else readTail positive (significand 0 (c :: cs)).1 (significand 0 (c :: cs)).2
      else failAhead .invalidNumber (c :: cs) 1 := by
  rw [readNumber.eq_3 _ _ _ hzero]
  rfl

/-- **A number is read in the same way in front of any text that it does not go on with.** -/
theorem part_readNumber : Part (readNumber positive) := by
  intro cs
  cases cs with
  | nil => exact partAt_of_error ⟨_, rfl⟩
  | cons c cs =>
    by_cases hzero : c = '0'
    · subst hzero
      by_cases hdigit : startsWithDigit cs = true
      · refine partAt_of_error ?_
        rw [readNumber, if_pos hdigit]
        exact ⟨_, rfl⟩
      · have hgo : ∀ rest, Ends rest →
            readNumber positive ('0' :: cs ++ rest) = readTail positive 0 (cs ++ rest) := by
          intro rest hrest
          rw [List.cons_append, readNumber, startsWithDigit_append hrest, if_neg hdigit]
        exact (part_readTail cs).of_goesOn (List.suffix_cons _ cs) hgo
    by_cases hdigit : c.isDigit = true
    · have hsignificand := suffix_significand 0 (c :: cs)
      have hstep : ∀ rest, Ends rest → readNumber positive (c :: cs ++ rest) =
          if startsWithDigit (significand 0 (c :: cs)).2 then
            readPlaces positive (significand 0 (c :: cs)).1
              ((significand 0 (c :: cs)).2.takeWhile Char.isDigit).length
              ((significand 0 (c :: cs)).2.dropWhile Char.isDigit ++ rest)
          else readTail positive (significand 0 (c :: cs)).1 ((significand 0 (c :: cs)).2 ++ rest) := by
        intro rest hrest
        have happend := significand_append hrest 0 (c :: cs)
        rw [List.cons_append] at happend
        rw [List.cons_append, readNumber_cons hzero, if_pos hdigit, happend,
          startsWithDigit_append hrest, takeWhile_append hrest, dropWhile_append hrest]
      by_cases hmore : startsWithDigit (significand 0 (c :: cs)).2 = true
      · exact (part_readPlaces _).of_goesOn ((List.dropWhile_suffix _).trans hsignificand)
          fun rest hrest => (hstep rest hrest).trans (if_pos hmore)
      · exact (part_readTail _).of_goesOn hsignificand
          fun rest hrest => (hstep rest hrest).trans (if_neg hmore)
    · refine partAt_of_error ?_
      rw [readNumber_cons hzero, if_neg hdigit]
      exact ⟨_, rfl⟩

end Parts

/-! ## Integers -/

theorem readNumber_digits {n : Nat} (h : n < Nat.pow 2 64) (positive : Bool) (hrest : Ends rest) :
    readNumber positive ((toString n).toList ++ rest) =
      .ok (readTail.whole positive n, rest) := by
  have hvalue := ofDigitChars_natText n
  have hdigits : ∀ c ∈ (toString n).toList, c.isDigit = true := isDigit_of_mem_natText
  obtain ⟨c, cs, hcs⟩ := List.exists_cons_of_ne_nil (natText_ne_nil n)
  by_cases hzero : c = '0'
  · -- only zero begins with a zero, and has no more digits
    subst hzero
    have hnil : cs = [] := by
      cases cs with
      | nil => rfl
      | cons d ds => exact absurd hcs natText_ne_leadingZero
    rw [hcs, hnil] at hvalue
    rw [hcs, hnil, ← hvalue, List.singleton_append, readNumber, hrest.startsWithDigit_eq,
      if_neg Bool.false_ne_true]
    exact readTail_ends hrest
  · have hread : significand 0 ((toString n).toList ++ rest) = (n, rest) := by
      rw [significand_append hrest, significand_digits hdigits (by rwa [hvalue]), hvalue,
        List.nil_append]
    rw [hcs, List.cons_append] at hread
    rw [hcs, List.cons_append, readNumber_cons hzero, hread,
      if_pos (hdigits c (hcs ▸ List.mem_cons_self)), hrest.startsWithDigit_eq,
      if_neg Bool.false_ne_true]
    exact readTail_ends hrest

theorem readNumber_natText {n : Nat} (h : n < Nat.pow 2 64) (hrest : Ends rest) :
    readNumber true ((toString n).toList ++ rest) = .ok (.int n, rest) :=
  readNumber_digits h true hrest

/-- The magnitude of a negative integer reads back as that integer, if it fits 64 bits with a sign. -/
theorem readNumber_negative {n : Nat} (h : n + 1 ≤ Nat.pow 2 63) (hrest : Ends rest) :
    readNumber false ((toString (n + 1)).toList ++ rest) = .ok (.int (Int.negSucc n), rest) := by
  have hwhole : readTail.whole false (n + 1) = .int (Int.negSucc n) := by
    have hfits : ¬(n + 1 = 0 ∨ Nat.pow 2 63 < n + 1) := by
      rw [not_or, Nat.not_lt]
      exact ⟨Nat.succ_ne_zero n, h⟩
    rw [readTail.whole, if_neg Bool.false_ne_true, if_neg hfits]
    rfl
  rw [readNumber_digits (Nat.lt_of_le_of_lt h (by decide)) false hrest, hwhole]

end AttributeRegistry.Json
