import AttributeRegistry.Attribute.Example
import AttributeRegistry.Proofs.Text.Digits
import AttributeRegistry.Version.Basic

/-!
# What is printed without quoting

Numbers, doubles, example literals and versions are printed without any control character
(`plain_display`, `plain_versionText`). So they stay on the line they are put on.
-/

namespace AttributeRegistry.Text

/-- A text without control characters. -/
def Plain (cs : List Char) : Prop :=
  ∀ c ∈ cs, isControl c = false

instance : DecidablePred Plain :=
  fun cs => List.decidableBAll (fun c => isControl c = false) cs

theorem Plain.not_mem_newline {cs : List Char} (h : Plain cs) : '\n' ∉ cs := by
  intro hmem
  exact absurd (h '\n' hmem) (by decide)

@[simp] theorem plain_nil : Plain [] := by
  simp [Plain]

@[simp] theorem plain_cons {c : Char} {cs : List Char} :
    Plain (c :: cs) ↔ isControl c = false ∧ Plain cs := by
  simp [Plain]

@[simp] theorem plain_append {as bs : List Char} : Plain (as ++ bs) ↔ Plain as ∧ Plain bs :=
  List.forall_mem_append

/-! ## Numbers -/

theorem isControl_eq_false_of_range {c : Char} (hlow : 0x20 ≤ c.toNat) (hhigh : c.toNat < 0x7F) :
    isControl c = false := by
  rw [isControl, Bool.or_eq_false_iff, Bool.and_eq_false_iff, decide_eq_false_iff_not,
    decide_eq_false_iff_not]
  omega

theorem isControl_eq_false_of_isAlphanum {c : Char} (h : c.isAlphanum = true) :
    isControl c = false := by
  -- by unfolding only, since rewriting would open the comparisons of characters
  have hranges : (decide (c.val ≥ 'A'.val ∧ c.val ≤ 'Z'.val) ||
      (decide (c.val ≥ 'a'.val) && decide (c.val ≤ 'z'.val)) ||
      (decide (c.val ≥ '0'.val) && decide (c.val ≤ '9'.val))) = true := h
  simp only [Bool.or_eq_true, Bool.and_eq_true, decide_eq_true_eq, UInt32.le_iff_toNat_le,
    ge_iff_le] at hranges
  have hval : c.toNat = c.val.toNat := rfl
  refine isControl_eq_false_of_range ?_ ?_ <;> simp at hranges <;> omega

theorem isControl_eq_false_of_isDigit {c : Char} (h : c.isDigit = true) : isControl c = false := by
  refine isControl_eq_false_of_isAlphanum ?_
  rw [Char.isAlphanum, h, Bool.or_true]

/-- A text with nothing but the characters of numbers. -/
def Numeric (cs : List Char) : Prop :=
  ∀ c ∈ cs, c.isDigit = true ∨ c ∈ "-+.e".toList

instance : DecidablePred Numeric :=
  fun cs => List.decidableBAll (fun c : Char => c.isDigit = true ∨ c ∈ "-+.e".toList) cs

theorem Numeric.plain {cs : List Char} (h : Numeric cs) : Plain cs := by
  have hmarks : Plain "-+.e".toList := by decide
  exact fun c hc => (h c hc).elim isControl_eq_false_of_isDigit (hmarks c)

theorem numeric_append {as bs : List Char} : Numeric (as ++ bs) ↔ Numeric as ∧ Numeric bs :=
  List.forall_mem_append

theorem Numeric.sublist {as bs : List Char} (h : Numeric bs) (hsub : as.Sublist bs) : Numeric as :=
  fun c hc => h c (hsub.mem hc)

theorem numeric_natText (n : Nat) : Numeric (toString n).toList :=
  fun c hc => .inl (isDigit_of_mem_natText c hc)

theorem numeric_zeros (n : Nat) : Numeric (Decimal.zeros n).toList := by
  intro c hc
  rw [Decimal.zeros, String.toList_ofList, List.mem_replicate] at hc
  rw [hc.2]
  decide

theorem numeric_placed (layout : Decimal.Layout) {digits : String} (h : Numeric digits.toList)
    (point : Int) : Numeric (Decimal.placed layout digits point).toList := by
  have hfraction : ∀ b : Bool, Numeric (if b then ".0" else "").toList := by decide
  rw [Decimal.placed]
  by_cases hsmall : point ≤ 0
  · rw [if_pos hsmall]
    simp only [String.toList_append, numeric_append]
    exact ⟨⟨by decide, numeric_zeros _⟩, h⟩
  · rw [if_neg hsmall]
    by_cases hwhole : (digits.length : Int) ≤ point
    · rw [if_pos hwhole]
      simp only [String.toList_append, numeric_append]
      exact ⟨⟨h, numeric_zeros _⟩, hfraction _⟩
    · rw [if_neg hwhole]
      simp only [String.toList_append, String.toList_ofList, numeric_append]
      exact ⟨⟨h.sublist (List.take_sublist _ _), by decide⟩, h.sublist (List.drop_sublist _ _)⟩

theorem numeric_scientific {digits : String} (h : Numeric digits.toList) (point : Int) :
    Numeric (Decimal.scientific digits point).toList := by
  unfold Decimal.scientific
  simp only [String.toList_append, numeric_append]
  refine ⟨⟨⟨?_, by decide⟩, ?_⟩, numeric_natText _⟩
  · split
    · decide
    · next d hd =>
      rw [String.toList_ofList, ← hd]
      exact h
    · next d ds _ hd =>
      rw [hd] at h
      rw [String.toList_ofList, show d :: '.' :: ds = [d] ++ ['.'] ++ ds by simp, numeric_append,
        numeric_append]
      exact ⟨⟨h.sublist (by simp), by decide⟩, h.sublist (by simp)⟩
  · split <;> decide

/-- **A decimal is printed with nothing but the characters of numbers.** -/
theorem numeric_write (layout : Decimal.Layout) (d : Decimal.Scaled) :
    Numeric (d.write layout).toList := by
  unfold Decimal.Scaled.write
  split
  · exact numeric_placed layout (numeric_natText _) _
  · dsimp only
    split
    · exact numeric_placed layout (numeric_natText _) _
    · exact numeric_scientific (numeric_natText _) _

theorem numeric_intText (n : Int) : Numeric (toString n).toList := by
  cases n with
  | ofNat n => exact numeric_natText n
  | negSucc n =>
    rw [toList_negSucc]
    exact List.forall_mem_cons.mpr ⟨.inr (by decide), numeric_natText _⟩

/-- **A double is printed without control characters** in any layout whose own words have none. -/
theorem plain_write {layout : Decimal.Layout} (hnan : Plain layout.nan.toList)
    (hinf : Plain layout.infinite.toList) (x : Float) : Plain (Decimal.write layout x).toList := by
  have hsign : ∀ b : Bool, Plain (if b then "-" else "").toList := by decide
  have hfraction : ∀ b : Bool, Plain (if b then ".0" else "").toList := by decide
  rw [Decimal.write]
  obtain ⟨negative, magnitude⟩ := Decimal.decode x
  cases magnitude with
  | nan => exact hnan
  | infinite =>
    rw [String.toList_append, plain_append]
    exact ⟨hsign _, hinf⟩
  | zero =>
    rw [String.toList_append, String.toList_append, plain_append, plain_append]
    exact ⟨⟨hsign _, by decide⟩, hfraction _⟩
  | finite b =>
    rw [String.toList_append, plain_append]
    exact ⟨hsign _, (numeric_write layout _).plain⟩

/-! ## Examples -/

mutual

/-- **A literal is printed without control characters.** -/
theorem plain_display : ∀ e : Example, Plain e.display
  | .bool b => by cases b <;> decide
  | .int n => (numeric_intText n).plain
  | .double x => plain_write (by decide) (by decide) x
  | .text s => fun _ hc => not_isControl_of_mem_literal hc
  | .list items => by
    rw [Example.display, plain_append, plain_cons]
    exact ⟨⟨by decide, plain_displayItems items⟩, by decide⟩

theorem plain_displayItems : ∀ items : List Example, Plain (Example.displayItems items)
  | [] => plain_nil
  | [e] => plain_display e
  | e :: f :: items => by
    rw [Example.displayItems, plain_append, plain_cons, plain_cons]
    · exact ⟨plain_display e, by decide, by decide, plain_displayItems (f :: items)⟩
    · simp

end

/-! ## Versions -/

section Versions

variable {P : Char → Prop}

theorem forall_mem_dotted (hperiod : P '.') {parts : List String}
    (h : ∀ part ∈ parts, ∀ c ∈ part.toList, P c) : ∀ c ∈ (Version.dotted parts).toList, P c := by
  induction parts with
  | nil => exact nofun
  | cons part parts ih =>
    cases parts with
    | nil => exact h part List.mem_cons_self
    | cons next parts =>
      rw [List.forall_mem_cons] at h
      rw [Version.dotted, String.toList_append, String.toList_append, List.forall_mem_append,
        List.forall_mem_append]
      · exact ⟨⟨h.1, by simpa using hperiod⟩, ih h.2⟩
      · simp

/-- A version is printed with the characters of identifiers, with periods and with a plus sign. -/
theorem forall_mem_versionText (hid : ∀ c, Version.isIdentifierChar c = true → P c)
    (hperiod : P '.') (hplus : P '+') (v : Version) : ∀ c ∈ v.text.toList, P c := by
  have hnumber : ∀ n : Nat, ∀ c ∈ (toString n).toList, P c := by
    intro n c hc
    refine hid c ?_
    rw [Version.isIdentifierChar, Char.isAlphanum, isDigit_of_mem_natText c hc, Bool.or_true,
      Bool.true_or]
  have hidentifier : ∀ cs : List Char, cs.all Version.isIdentifierChar = true → ∀ c ∈ cs, P c :=
    fun cs h c hc => hid c (List.all_eq_true.mp h c hc)
  have hpre : ∀ c ∈ v.preText.toList, P c := by
    refine forall_mem_dotted hperiod ?_
    intro part hpart
    obtain ⟨i, -, rfl⟩ := List.mem_map.mp hpart
    cases i with
    | number n => exact hnumber n
    | word cs valid =>
      rw [Version.isWord, Bool.and_eq_true] at valid
      rw [Version.PreIdentifier.text, String.toList_ofList]
      exact hidentifier cs valid.1
  have hbuild : ∀ c ∈ v.buildText.toList, P c := by
    refine forall_mem_dotted hperiod ?_
    intro part hpart
    obtain ⟨i, -, rfl⟩ := List.mem_map.mp hpart
    rw [Version.BuildIdentifier.text, String.toList_ofList]
    exact hidentifier i.chars i.valid.2
  have hnumbers : ∀ c ∈ (Version.dotted
      [toString v.major.toNat, toString v.minor.toNat, toString v.patch.toNat]).toList, P c := by
    refine forall_mem_dotted hperiod ?_
    simp only [List.forall_mem_cons, List.not_mem_nil, false_implies, implies_true, and_true]
    exact ⟨hnumber _, hnumber _, hnumber _⟩
  rw [Version.text, String.toList_append, String.toList_append, List.forall_mem_append,
    List.forall_mem_append]
  refine ⟨⟨hnumbers, ?_⟩, ?_⟩
  · split
    · exact nofun
    · rw [String.toList_append, List.forall_mem_append]
      exact ⟨by simpa using hid '-' (by decide), hpre⟩
  · split
    · exact nofun
    · rw [String.toList_append, List.forall_mem_append]
      exact ⟨by simpa using hplus, hbuild⟩

end Versions

/-- **A version is printed without control characters.** -/
theorem plain_versionText (v : Version) : Plain v.text.toList := by
  refine forall_mem_versionText (fun c hid => ?_) (by decide) (by decide) v
  rw [Version.isIdentifierChar, Bool.or_eq_true, beq_iff_eq] at hid
  rcases hid with hid | rfl
  · exact isControl_eq_false_of_isAlphanum hid
  · decide

end AttributeRegistry.Text
