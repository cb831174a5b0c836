import AttributeRegistry.Text.Hex
import AttributeRegistry.Text.Quoted

/-!
# Literals are read back

Every character of a literal says where it ends, and none of them is a quotation mark by itself
(`readLiteralChar_append`). So a literal ends at the first quotation mark that stands for no character,
whatever follows it.

Main statement: the text of a literal, and what follows it, are determined (`literal_append_inj`).
-/

namespace AttributeRegistry.Text

/-- The character that a part of a literal stands for, and what follows; a quotation mark ends the
literal. -/
def readLiteralChar : List Char → Option (Char × List Char)
  | '\\' :: '"' :: cs => some ('"', cs)
  | '\\' :: '\\' :: cs => some ('\\', cs)
  | '\\' :: 'n' :: cs => some ('\n', cs)
  | '\\' :: 'r' :: cs => some ('\r', cs)
  | '\\' :: 't' :: cs => some ('\t', cs)
  | '\\' :: 'u' :: '\x7b' :: a :: b :: c :: d :: '\x7d' :: cs =>
    (hexNumber? [a, b, c, d]).map fun n => (Char.ofNat n, cs)
  | '"' :: _ => none
  | c :: cs => some (c, cs)
  | [] => none

theorem readLiteralChar_cons {c : Char} (hquote : c ≠ '"') (hbackslash : c ≠ '\\') (cs : List Char) :
    readLiteralChar (c :: cs) = some (c, cs) := by
  unfold readLiteralChar
  split <;> simp_all

/-- The number of a control character is written in four digits, and read back. -/
theorem padZeros_hexDigits {n : Nat} (h : n < 0xA0) :
    padZeros 4 (hexDigits n) = ['0', '0', hexDigit (n / 16), hexDigit (n % 16)] ∧
      hexNumber? ['0', '0', hexDigit (n / 16), hexDigit (n % 16)] = some n := by
  have all : ∀ m < 0xA0, padZeros 4 (hexDigits m) = ['0', '0', hexDigit (m / 16), hexDigit (m % 16)] ∧
      hexNumber? ['0', '0', hexDigit (m / 16), hexDigit (m % 16)] = some m := by
    decide +kernel
  exact all n h

/-- The characters with a short escape in a literal. -/
def shortEscaped : List Char :=
  ['"', '\\', '\n', '\r', '\t']

/-- **A character of a literal is read back**, whatever follows it. -/
theorem readLiteralChar_append (c : Char) (rest : List Char) :
    readLiteralChar (literalChar c ++ rest) = some (c, rest) := by
  have hescaped : ∀ d ∈ shortEscaped, readLiteralChar (literalChar d ++ rest) = some (d, rest) := by
    simp only [shortEscaped, List.forall_mem_cons]
    exact ⟨rfl, rfl, rfl, rfl, rfl, nofun⟩
  by_cases hc : c ∈ shortEscaped
  · exact hescaped c hc
  · have hne : ∀ d ∈ shortEscaped, c ≠ d := fun d hd heq => hc (heq ▸ hd)
    unfold literalChar
    rw [if_neg (hne '"' (by decide)), if_neg (hne '\\' (by decide)), if_neg (hne '\n' (by decide)),
      if_neg (hne '\r' (by decide)), if_neg (hne '\t' (by decide))]
    split
    · next hcontrol =>
      have hlt : c.toNat < 0xA0 := by
        simp only [isControl, Bool.or_eq_true, Bool.and_eq_true, decide_eq_true_eq] at hcontrol
        omega
      obtain ⟨hdigits, hnumber⟩ := padZeros_hexDigits hlt
      rw [hdigits]
      show (hexNumber? _).map (fun n => (Char.ofNat n, rest)) = _
      rw [hnumber, Option.map_some, Char.ofNat_toNat]
    · exact readLiteralChar_cons (hne '"' (by decide)) (hne '\\' (by decide)) rest

theorem literalBody_append_inj {as bs r s : List Char}
    (h : as.flatMap literalChar ++ '"' :: r = bs.flatMap literalChar ++ '"' :: s) :
    as = bs ∧ r = s := by
  have hread := congrArg readLiteralChar h
  induction as generalizing bs with
  | nil =>
    cases bs with
    | nil => exact ⟨rfl, (List.cons.inj h).2⟩
    | cons b bs =>
      rw [List.flatMap_cons, List.append_assoc, readLiteralChar_append] at hread
      cases hread
  | cons a as ih =>
    rw [List.flatMap_cons, List.append_assoc, readLiteralChar_append] at hread
    cases bs with
    | nil => cases hread
    | cons b bs =>
      rw [List.flatMap_cons, List.append_assoc, readLiteralChar_append, Option.some.injEq,
        Prod.mk.injEq] at hread
      obtain ⟨rfl, hrest⟩ := hread
      obtain ⟨rfl, hrs⟩ := ih hrest (congrArg readLiteralChar hrest)
      exact ⟨rfl, hrs⟩

/-- **A literal determines its text and what follows it.** -/
theorem literal_append_inj {as bs r s : List Char} (h : literal as ++ r = literal bs ++ s) :
    as = bs ∧ r = s := by
  have hbodies : '"' :: (as.flatMap literalChar ++ '"' :: r) =
      '"' :: (bs.flatMap literalChar ++ '"' :: s) := by
    simpa [literal] using h
  exact literalBody_append_inj (List.cons.inj hbodies).2

end AttributeRegistry.Text
