import AttributeRegistry.Json.Reader

/-!
# Reading strings

A written string reads back, and blanks are passed over.

Main statement: `readString_flatMap`.
-/

namespace AttributeRegistry.Json

/-! ## Strings -/

theorem readHex_control {n : Nat} (h : n < 0x20) (rest : List Char) :
    readHex ('0' :: '0' :: Text.hexDigit (n / 16) :: Text.hexDigit (n % 16) :: rest) =
      .ok (n, ⟨rest, by simp; omega⟩) := by
  have hzero : Text.hexValue? '0' = some 0 := by decide
  unfold readHex
  simp only [hzero, Text.hexValue?_hexDigit (show n / 16 < 16 by omega),
    Text.hexValue?_hexDigit (show n % 16 < 16 by omega)]
  congr 2
  omega

theorem readEscape_control {c : Char} (h : c.toNat < 0x20) (rest : List Char) :
    readEscape ('u' :: '0' :: '0' :: Text.hexDigit (c.toNat / 16) :: Text.hexDigit (c.toNat % 16)
      :: rest) = .ok (c, ⟨rest, by simp; omega⟩) := by
  unfold readEscape
  simp only [readHex_control h, Bind.bind, Except.bind]
  rw [if_neg (by omega), if_neg (by omega)]
  simp only [Char.ofNat_toNat]
  rfl

theorem readStringBody_escaped {c : Char} {cs rest : List Char} (hle : rest.length ≤ cs.length)
    (h : readEscape cs = .ok (c, ⟨rest, hle⟩)) :
    readStringBody ('\\' :: cs) = (readStringBody rest).map fun p => (c :: p.1, p.2) := by
  rw [readStringBody.eq_3, h]
  simp only [Bind.bind, Except.bind]
  cases readStringBody rest <;> rfl

/-- **One character of a written string reads back as itself.** -/
theorem readStringBody_escapeChar (c : Char) (rest : List Char) :
    readStringBody (escapeChar c ++ rest) =
      (readStringBody rest).map fun p => (c :: p.1, p.2) := by
  unfold escapeChar
  by_cases h : c = '"' ∨ c = '\\' ∨ c = '\n' ∨ c = '\r' ∨ c = '\t' ∨ c = '\x08' ∨ c = '\x0c'
  · -- a backslash and one more character
    rcases h with rfl | rfl | rfl | rfl | rfl | rfl | rfl
    all_goals exact readStringBody_escaped (Nat.le_succ _) (by simp [readEscape])
  · simp only [not_or] at h
    obtain ⟨hquote, hbackslash, hn, hr, ht, hb, hf⟩ := h
    rw [if_neg hquote, if_neg hbackslash, if_neg hn, if_neg hr, if_neg ht, if_neg hb, if_neg hf]
    by_cases hcontrol : c.toNat < 0x20
    · rw [if_pos hcontrol]
      exact readStringBody_escaped _ (readEscape_control hcontrol rest)
    · rw [if_neg hcontrol, List.singleton_append, readStringBody.eq_4 _ _ hquote hbackslash,
        if_neg hcontrol]
      simp only [Bind.bind, Except.bind]
      cases readStringBody rest <;> rfl

theorem readStringBody_flatMap (cs rest : List Char) :
    readStringBody (cs.flatMap escapeChar ++ '"' :: rest) = .ok (cs, rest) := by
  induction cs with
  | nil => rw [List.flatMap_nil, List.nil_append, readStringBody]
  | cons c cs ih =>
    rw [List.flatMap_cons, List.append_assoc, readStringBody_escapeChar, ih]
    rfl

theorem readString_flatMap (s : String) (rest : List Char) :
    readString (s.toList.flatMap escapeChar ++ '"' :: rest) = .ok (s, rest) := by
  unfold readString
  rw [readStringBody_flatMap]
  simp only [Bind.bind, Except.bind, String.ofList_toList]
  rfl

/-! ## Blanks -/

/-- A text of blanks. -/
def Gap (gap : List Char) : Prop :=
  ∀ c ∈ gap, isGap c = true

theorem gap_nil : Gap [] := by
  simp [Gap]

theorem skipGap_append {gap : List Char} (h : Gap gap) (cs : List Char) :
    skipGap (gap ++ cs) = skipGap cs := by
  unfold skipGap
  rw [List.dropWhile_append_of_pos h]

theorem skipGap_cons {c : Char} (h : isGap c = false) (cs : List Char) :
    skipGap (c :: cs) = c :: cs := by
  unfold skipGap
  rw [List.dropWhile_cons_of_neg (by simp [h])]

theorem writeString_append (s : String) (rest : List Char) :
    writeString s ++ rest = '"' :: (s.toList.flatMap escapeChar ++ '"' :: rest) := by
  rw [writeString, List.cons_append, List.cons_append, List.append_assoc, List.singleton_append]

theorem skipGap_writeString {gap : List Char} (hgap : Gap gap) (s : String) (rest : List Char) :
    skipGap (gap ++ (writeString s ++ rest)) =
      '"' :: (s.toList.flatMap escapeChar ++ '"' :: rest) := by
  rw [skipGap_append hgap, writeString_append, skipGap_cons (by decide)]

end AttributeRegistry.Json
