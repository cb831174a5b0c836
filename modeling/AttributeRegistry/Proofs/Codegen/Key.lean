import AttributeRegistry.Codegen.Constant
import AttributeRegistry.Proofs.Text.Printed
import AttributeRegistry.Proofs.Validation.Rules

/-!
# Keys in generated text

A well-formed key is made of lower-case letters, digits, underscores and periods. So it is quoted as it
is (`toList_quoted_of_wellFormed`), and neither it nor its constant breaks a line.
-/

namespace AttributeRegistry

theorem Key.WellFormed.mem {key : List Char} (h : Key.WellFormed key) {c : Char} (hc : c ∈ key) :
    ('a' ≤ c ∧ c ≤ 'z') ∨ ('0' ≤ c ∧ c ≤ '9') ∨ c = '_' ∨ c = '.' := by
  obtain ⟨segments, -, hsegments, rfl⟩ := h
  rcases Text.mem_joinWith hc with rfl | ⟨segment, hsegment, hc⟩
  · simp
  · obtain ⟨d, ds, rfl, hd, hds⟩ := hsegments segment hsegment
    rcases List.mem_cons.mp hc with rfl | hc
    · exact .inl hd
    · rcases hds c hc with h | h | h
      · exact .inl h
      · exact .inr (.inl h)
      · exact .inr (.inr (.inl h))

/-- The characters of a key are visible ASCII characters other than the quotation mark and the
backslash. -/
theorem Key.WellFormed.range {key : List Char} (h : Key.WellFormed key) {c : Char} (hc : c ∈ key) :
    0x20 ≤ c.toNat ∧ c.toNat < 0x7F ∧ c ≠ '"' ∧ c ≠ '\\' := by
  rcases h.mem hc with ⟨hlow, hhigh⟩ | ⟨hlow, hhigh⟩ | rfl | rfl
  · have h₁ : 97 ≤ c.toNat := hlow
    have h₂ : c.toNat ≤ 122 := hhigh
    refine ⟨by omega, by omega, ?_, ?_⟩ <;> rintro rfl <;> exact absurd h₁ (by decide)
  · have h₁ : 48 ≤ c.toNat := hlow
    have h₂ : c.toNat ≤ 57 := hhigh
    refine ⟨by omega, by omega, ?_, ?_⟩ <;> rintro rfl
    · exact absurd h₁ (by decide)
    · exact absurd h₂ (by decide)
  · decide
  · decide

/-- A well-formed key has a period between two segments. -/
theorem Key.WellFormed.ne_nil {key : List Char} (h : Key.WellFormed key) : key ≠ [] := by
  obtain ⟨segments, hlength, -, rfl⟩ := h
  match segments with
  | [] | [_] => simp at hlength
  | first :: second :: segments => simp [Text.joinWith]

/-- The constant of a well-formed key is made of capitals, digits and underscores. -/
theorem Key.WellFormed.mem_constantName {key : String} (h : Key.WellFormed key.toList) {c : Char}
    (hc : c ∈ (Codegen.constantName key).toList) :
    ('A' ≤ c ∧ c ≤ 'Z') ∨ ('0' ≤ c ∧ c ≤ '9') ∨ c = '_' := by
  have hall : ∀ n ∈ List.range 0x7F, (97 ≤ n ∧ n ≤ 122) ∨ (48 ≤ n ∧ n ≤ 57) ∨ n = 95 ∨ n = 46 →
      ('A' ≤ Codegen.constantChar (Char.ofNat n) ∧ Codegen.constantChar (Char.ofNat n) ≤ 'Z') ∨
        ('0' ≤ Codegen.constantChar (Char.ofNat n) ∧ Codegen.constantChar (Char.ofNat n) ≤ '9') ∨
        Codegen.constantChar (Char.ofNat n) = '_' := by
    decide +kernel
  rw [Codegen.constantName, String.toList_ofList, List.mem_map] at hc
  obtain ⟨d, hd, rfl⟩ := hc
  have hchar := hall d.toNat (List.mem_range.mpr (h.range hd).2.1)
  rw [Char.ofNat_toNat] at hchar
  refine hchar ?_
  rcases h.mem hd with hd | hd | rfl | rfl
  · exact .inl hd
  · exact .inr (.inl hd)
  · exact .inr (.inr (.inl rfl))
  · exact .inr (.inr (.inr rfl))

namespace Text

theorem Plain.of_wellFormed {key : List Char} (h : Key.WellFormed key) : Plain key := by
  intro c hc
  obtain ⟨hlow, hhigh, -, -⟩ := h.range hc
  exact isControl_eq_false_of_range hlow hhigh

/-! ## Quoting -/

theorem isUnprintable_eq_false_of_range {c : Char} (hlow : 0x20 ≤ c.toNat)
    (hhigh : c.toNat < 0x7F) : isUnprintable c = false := by
  -- no range of the table meets the visible ASCII characters
  have hall : ∀ r ∈ unprintableRanges.toList, r.2 < 0x20 ∨ 0x7F ≤ r.1 := by
    decide +kernel
  rw [isUnprintable, ← Array.any_toList, List.any_eq_false]
  intro r hr
  have hr := hall r hr
  rw [Bool.and_eq_true, decide_eq_true_eq, decide_eq_true_eq]
  omega

theorem quotedChar_of_range {c : Char} (hlow : 0x20 ≤ c.toNat) (hhigh : c.toNat < 0x7F)
    (hquote : c ≠ '"') (hback : c ≠ '\\') : quotedChar '"' c = [c] := by
  have hne : ∀ d : Char, d.toNat < 0x20 → c ≠ d := by
    rintro d hd rfl
    omega
  unfold quotedChar
  rw [if_neg (hne _ (by decide)), if_neg (hne _ (by decide)), if_neg (hne _ (by decide)),
    if_neg (hne _ (by decide)), if_neg hback, if_neg hquote,
    isUnprintable_eq_false_of_range hlow hhigh]
  rfl

/-- **A well-formed key is quoted as it is.** -/
theorem toList_quoted_of_wellFormed {key : String} (h : Key.WellFormed key.toList) :
    (quoted key).toList = '"' :: key.toList ++ ['"'] := by
  have hflat : ∀ cs : List Char, (∀ c ∈ cs, quotedChar '"' c = [c]) →
      cs.flatMap (quotedChar '"') = cs := by
    intro cs hcs
    induction cs with
    | nil => rfl
    | cons c cs ih =>
      rw [List.flatMap_cons, hcs c List.mem_cons_self,
        ih fun d hd => hcs d (List.mem_cons_of_mem _ hd)]
      rfl
  rw [quoted, String.toList_ofList, hflat]
  · rfl
  · intro c hc
    obtain ⟨hlow, hhigh, hquote, hback⟩ := h.range hc
    exact quotedChar_of_range hlow hhigh hquote hback

/-! ## Constants -/

theorem plain_constantName {key : String} (h : Key.WellFormed key.toList) :
    Plain (Codegen.constantName key).toList := by
  intro c hc
  rcases h.mem_constantName hc with ⟨hlow, hhigh⟩ | ⟨hlow, hhigh⟩ | rfl
  · have h₁ : 65 ≤ c.toNat := hlow
    have h₂ : c.toNat ≤ 90 := hhigh
    exact isControl_eq_false_of_range (by omega) (by omega)
  · have h₁ : 48 ≤ c.toNat := hlow
    have h₂ : c.toNat ≤ 57 := hhigh
    exact isControl_eq_false_of_range (by omega) (by omega)
  · decide

end Text

end AttributeRegistry
