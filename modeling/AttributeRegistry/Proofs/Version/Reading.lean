import AttributeRegistry.Proofs.Text.Printed
import AttributeRegistry.Version.Parser

/-!
# Versions read back

The text of a version is read as that version: its numbers have no leading zeros, and its identifiers
end where the next part begins.

Main statements: `ofChars_text`, and for documents and settings, which allow blanks and a `v` around a
version, `parse_text`.
-/

namespace AttributeRegistry.Version

open Text (natText_ne_nil natText_ne_leadingZero isDigit_of_mem_natText ofDigitChars_natText)

/-! ## Numbers -/

theorem digitsValue_natText (n : Nat) : digitsValue (toString n).toList = n :=
  ofDigitChars_natText n

theorem readNumber_natText (part : Part) (n : UInt64) {rest : List Char}
    (h : ∀ c ∈ rest.head?, c.isDigit = false) :
    readNumber part ((toString n.toNat).toList ++ rest) = .ok (n, rest) := by
  have hrest : rest.takeWhile Char.isDigit = [] ∧ rest.dropWhile Char.isDigit = rest := by
    cases rest with
    | nil => exact ⟨rfl, rfl⟩
    | cons c cs =>
      have hc := h c rfl
      rw [List.takeWhile_cons_of_neg (by simp [hc]), List.dropWhile_cons_of_neg (by simp [hc])]
      exact ⟨rfl, rfl⟩
  unfold readNumber
  rw [List.takeWhile_append_of_pos isDigit_of_mem_natText,
    List.dropWhile_append_of_pos isDigit_of_mem_natText, hrest.1, hrest.2, List.append_nil]
  dsimp only
  split
  · next hnil => exact absurd hnil (natText_ne_nil _)
  · next hnil => exact absurd hnil (natText_ne_nil _)
  · next hzero => exact absurd hzero natText_ne_leadingZero
  · rw [digitsValue_natText, if_pos n.toNat_lt_size, UInt64.ofNat_toNat]

/-! ## Identifiers -/

/-- What stands behind segments ends them. -/
def Ends (rest : List Char) : Prop :=
  ∀ c ∈ rest.head?, isIdentifierChar c = false ∧ c ≠ '.'

/-- What a segment has to be to be read as it is. -/
structure Segment (part : Part) (cs : List Char) : Prop where
  ne_nil : cs ≠ []
  chars : cs.all isIdentifierChar = true
  leading : ¬ (part = .pre ∧ readSegments.hasLeadingZero cs = true)

namespace Segment

variable {part : Part} {cs rest : List Char}

theorem span (h : Segment part cs) (hrest : ∀ c ∈ rest.head?, isIdentifierChar c = false) :
    (cs ++ rest).takeWhile isIdentifierChar = cs ∧
      (cs ++ rest).dropWhile isIdentifierChar = rest := by
  have hall : ∀ c ∈ cs, isIdentifierChar c = true := List.all_eq_true.mp h.chars
  rw [List.takeWhile_append_of_pos hall, List.dropWhile_append_of_pos hall]
  cases rest with
  | nil => simp
  | cons c rest =>
    have hc := hrest c rfl
    simp [hc]

theorem readSegments_cons (h : Segment part cs) (rest : List Char) :
    readSegments part (cs ++ '.' :: rest) =
      (readSegments part rest).map fun p => (cs :: p.1, p.2) := by
  have hperiod : ∀ c ∈ ('.' :: rest).head?, isIdentifierChar c = false := by
    rintro c hc
    cases hc
    decide
  obtain ⟨htake, hdrop⟩ := h.span hperiod
  rw [readSegments.eq_def]
  simp only
  split
  · next hnil => exact absurd (htake.symm.trans hnil) h.ne_nil
  · next hbehind =>
    rw [hdrop] at hbehind
    cases hbehind
    rw [htake, if_neg h.leading]
    cases readSegments part rest <;> rfl
  · next hbehind => exact absurd hdrop (hbehind rest)

theorem readSegments_last (h : Segment part cs) (hrest : Ends rest) :
    readSegments part (cs ++ rest) = .ok ([cs], rest) := by
  obtain ⟨htake, hdrop⟩ := h.span fun c hc => (hrest c hc).1
  rw [readSegments.eq_def]
  simp only
  split
  · next hnil => exact absurd (htake.symm.trans hnil) h.ne_nil
  · next hbehind =>
    rw [hdrop] at hbehind
    exact absurd rfl (hrest '.' (by rw [hbehind]; rfl)).2
  · rw [htake, hdrop, if_neg h.leading]
    rfl

end Segment

/-- **Segments with periods between them read back.** -/
theorem readSegments_dotted {part : Part} {parts : List String} (hne : parts ≠ [])
    (h : ∀ p ∈ parts, Segment part p.toList) {rest : List Char} (hrest : Ends rest) :
    readSegments part ((dotted parts).toList ++ rest) = .ok (parts.map String.toList, rest) := by
  induction parts with
  | nil => exact absurd rfl hne
  | cons p parts ih =>
    rw [List.forall_mem_cons] at h
    cases parts with
    | nil =>
      rw [dotted, h.1.readSegments_last hrest]
      rfl
    | cons q parts =>
      have htext : (dotted (p :: q :: parts)).toList ++ rest =
          p.toList ++ '.' :: ((dotted (q :: parts)).toList ++ rest) := by
        rw [dotted, String.toList_append, String.toList_append, List.append_assoc,
          List.append_assoc]
        · rfl
        · simp
      rw [htext, h.1.readSegments_cons, ih (by simp) h.2]
      rfl

theorem hasLeadingZero_natText (n : Nat) :
    readSegments.hasLeadingZero (toString n).toList = false := by
  have hzero := @natText_ne_leadingZero n
  unfold readSegments.hasLeadingZero
  generalize (toString n).toList = cs at hzero
  rcases cs with _ | ⟨c, _ | ⟨d, cs⟩⟩
  · simp
  · simp
  · have hc : c ≠ '0' := by
      rintro rfl
      exact hzero rfl
    simp [hc]

theorem all_isDigit_of_isWord {cs : List Char} (h : isWord cs = true) :
    cs.all Char.isDigit = false := by
  unfold isWord at h
  rw [Bool.and_eq_true, List.any_eq_true] at h
  obtain ⟨-, c, hc, hdigit⟩ := h
  rw [List.all_eq_false]
  refine ⟨c, hc, ?_⟩
  simpa using hdigit

theorem segment_pre (i : PreIdentifier) : Segment .pre i.text.toList := by
  cases i with
  | number n =>
    refine ⟨natText_ne_nil n, ?_, ?_⟩
    · rw [List.all_eq_true]
      intro c hc
      have hdigit : c.isDigit = true := isDigit_of_mem_natText c hc
      simp [isIdentifierChar, Char.isAlphanum, hdigit]
    · rintro ⟨-, hleading⟩
      rw [PreIdentifier.text, hasLeadingZero_natText] at hleading
      cases hleading
  | word cs valid =>
    have hdigits := all_isDigit_of_isWord valid
    unfold isWord at valid
    rw [Bool.and_eq_true] at valid
    unfold PreIdentifier.text
    rw [String.toList_ofList]
    refine ⟨?_, valid.1, ?_⟩
    · rintro rfl
      simp at valid
    · rintro ⟨-, hleading⟩
      rw [readSegments.hasLeadingZero, hdigits] at hleading
      cases hleading

theorem segment_build (b : BuildIdentifier) : Segment .build b.text.toList := by
  unfold BuildIdentifier.text
  rw [String.toList_ofList]
  exact ⟨b.valid.1, b.valid.2, by simp⟩

theorem ofSegment_pre (i : PreIdentifier) : PreIdentifier.ofSegment i.text.toList = some i := by
  unfold PreIdentifier.ofSegment PreIdentifier.text
  cases i with
  | number n =>
    rw [if_pos (List.all_eq_true.mpr isDigit_of_mem_natText), digitsValue_natText]
  | word cs valid =>
    have hdigits := all_isDigit_of_isWord valid
    dsimp only
    rw [String.toList_ofList, if_neg (by simp [hdigits]), dif_pos valid]

theorem ofSegment_build (b : BuildIdentifier) : BuildIdentifier.ofSegment b.text.toList = some b := by
  unfold BuildIdentifier.ofSegment BuildIdentifier.text
  rw [String.toList_ofList, dif_pos b.valid]

/-! ## Whole versions -/

theorem readPre_text (v : Version) {rest : List Char} (hrest : Ends rest) :
    readPre ((if v.pre = [] then "" else "-" ++ v.preText).toList ++ rest) = .ok (v.pre, rest) := by
  by_cases hpre : v.pre = []
  · rw [if_pos hpre, hpre, show "".toList = [] from rfl, List.nil_append]
    unfold readPre
    split
    · exact absurd (hrest '-' rfl).1 (by decide)
    · rfl
  · have hsegments : ∀ p ∈ v.pre.map PreIdentifier.text, Segment .pre p.toList := by
      intro p hp
      obtain ⟨i, -, rfl⟩ := List.mem_map.mp hp
      exact segment_pre i
    have hof : PreIdentifier.ofSegment ∘ String.toList ∘ PreIdentifier.text = some :=
      funext ofSegment_pre
    rw [if_neg hpre, preText, String.toList_append, show "-".toList = ['-'] from rfl,
      List.append_assoc, List.singleton_append, readPre,
      readSegments_dotted (by simpa using hpre) hsegments hrest]
    simp only [Bind.bind, Except.bind, List.map_map, List.filterMap_map, hof, List.filterMap_some]
    rfl

theorem readBuild_text (v : Version) :
    readBuild (if v.build = [] then "" else "+" ++ v.buildText).toList = .ok (v.build, []) := by
  by_cases hbuild : v.build = []
  · rw [if_pos hbuild, hbuild]
    rfl
  · have hsegments : ∀ p ∈ v.build.map BuildIdentifier.text, Segment .build p.toList := by
      intro p hp
      obtain ⟨b, -, rfl⟩ := List.mem_map.mp hp
      exact segment_build b
    have hof : BuildIdentifier.ofSegment ∘ String.toList ∘ BuildIdentifier.text = some :=
      funext ofSegment_build
    have hend : Ends [] := by simp [Ends]
    have hread := readSegments_dotted (by simpa using hbuild) hsegments hend
    rw [List.append_nil] at hread
    rw [if_neg hbuild, buildText, String.toList_append, show "+".toList = ['+'] from rfl,
      List.singleton_append, readBuild, hread]
    simp only [Bind.bind, Except.bind, List.map_map, List.filterMap_map, hof, List.filterMap_some]
    rfl

theorem ends_build (v : Version) : Ends (if v.build = [] then "" else "+" ++ v.buildText).toList := by
  intro c hc
  split at hc
  · cases hc
  · rw [String.toList_append, show "+".toList = ['+'] from rfl] at hc
    cases hc
    decide

theorem ends_pre (v : Version) {rest : List Char} (hrest : Ends rest) :
    ∀ c ∈ ((if v.pre = [] then "" else "-" ++ v.preText).toList ++ rest).head?,
      c.isDigit = false := by
  intro c hc
  split at hc
  · -- without a pre-release it is the build metadata, or the end
    have hident := (hrest c hc).1
    simp [isIdentifierChar, Char.isAlphanum] at hident
    exact hident.1.2
  · rw [String.toList_append, show "-".toList = ['-'] from rfl] at hc
    cases hc
    decide

/-- **The text of a version is read as that version.** -/
theorem ofChars_text (v : Version) : ofChars v.text.toList = .ok v := by
  have htext : v.text.toList = (toString v.major.toNat).toList ++ '.' ::
      ((toString v.minor.toNat).toList ++ '.' :: ((toString v.patch.toNat).toList ++
        ((if v.pre = [] then "" else "-" ++ v.preText).toList ++
          (if v.build = [] then "" else "+" ++ v.buildText).toList))) := by
    unfold text
    simp only [dotted, String.toList_append, show ".".toList = ['.'] from rfl, List.append_assoc,
      List.cons_append, List.nil_append]
  have hdot : ∀ (part : Part) (rest : List Char), readDot part ('.' :: rest) = .ok rest :=
    fun _ _ => rfl
  have hperiod : ∀ rest : List Char, ∀ c ∈ ('.' :: rest).head?, c.isDigit = false := by simp
  have hne : v.text.toList ≠ [] := by
    rw [htext]
    exact List.append_ne_nil_of_left_ne_nil (natText_ne_nil _) _
  unfold ofChars
  rw [if_neg hne, htext]
  simp only [readNumber_natText _ v.major (hperiod _), hdot,
    readNumber_natText _ v.minor (hperiod _),
    readNumber_natText _ v.patch (ends_pre v (ends_build v)), readPre_text v (ends_build v),
    readBuild_text v, Bind.bind, Except.bind]
  rfl

/-! ## In documents -/

theorem isBlank_eq_false_of_isIdentifierChar {c : Char} (h : isIdentifierChar c = true) :
    Text.isBlank c = false := by
  have hall : ∀ n ∈ Text.blanks, isIdentifierChar (Char.ofNat n) = false := by decide
  rw [Bool.eq_false_iff]
  intro hblank
  have hc := hall c.toNat (List.contains_iff_mem.mp hblank)
  rw [Char.ofNat_toNat, h] at hc
  exact absurd hc (by decide)

/-- **A document that declares the text of a version declares that version.** -/
theorem parse_text (v : Version) : parse v.text = .ok v := by
  have hread := ofChars_text v
  have htrim : Text.trim v.text.toList = v.text.toList :=
    Text.trim_of_forall (Text.forall_mem_versionText
      (fun _ => isBlank_eq_false_of_isIdentifierChar) (by decide) (by decide) v)
  have hdrop : dropV v.text.toList = v.text.toList := by
    unfold dropV
    split
    · next cs hcs =>
      -- no version begins with a letter
      rw [hcs] at hread
      cases hread
    · rfl
  rw [parse, htrim, hdrop, hread]

end AttributeRegistry.Version
