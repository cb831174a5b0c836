import AttributeRegistry.Decimal.Layout
import AttributeRegistry.Decimal.Parse
import AttributeRegistry.Proofs.Decimal.Shortest
import AttributeRegistry.Proofs.Text.Digits

/-!
# Doubles as they are written

A decimal written positionally or with an exponent still shows its value (`numeral_write`). So what is
written for a double determines the double, its sign and the sign of a zero included. As JSON the values
that are no numbers are all written alike (`writeJson_eq_iff`), in documentation only those that are no
number at all (`write_fractionLayout_eq_iff`).
-/

namespace AttributeRegistry.Decimal

open List
open Text (natText_ne_nil isDigit_of_mem_natText ofDigitChars_natText)

/-! ## Numerals -/

/-- The digits behind the decimal point a text begins with. -/
def fractionDigits : List Char → List Char
  | '.' :: cs => cs.takeWhile Char.isDigit
  | _ => []

/-- What stands behind the fraction a text begins with. -/
def afterFraction : List Char → List Char
  | '.' :: cs => cs.dropWhile Char.isDigit
  | cs => cs

/-- The value of a numeral without a sign. -/
def numeral (cs : List Char) : ℚ :=
  let rest := cs.dropWhile Char.isDigit
  digitsValue (cs.takeWhile Char.isDigit ++ fractionDigits rest)
    * 10 ^ ((exponent? (afterFraction rest)).getD 0 - (fractionDigits rest).length)

/-- A text that does not go on with a digit. -/
def NoDigit (cs : List Char) : Prop :=
  ∀ c ∈ cs.head?, c.isDigit = false

theorem takeWhile_digits {ds rest : List Char} (hds : ∀ c ∈ ds, c.isDigit = true)
    (hrest : NoDigit rest) : (ds ++ rest).takeWhile Char.isDigit = ds := by
  rw [takeWhile_append_of_pos hds]
  cases rest with
  | nil => simp
  | cons c cs => simp [hrest c rfl]

theorem dropWhile_digits {ds rest : List Char} (hds : ∀ c ∈ ds, c.isDigit = true)
    (hrest : NoDigit rest) : (ds ++ rest).dropWhile Char.isDigit = rest := by
  rw [dropWhile_append_of_pos hds]
  cases rest with
  | nil => rfl
  | cons c cs => simp [hrest c rfl]

/-- A numeral with a decimal point. -/
theorem numeral_point {whole fraction tail : List Char} (hwhole : ∀ c ∈ whole, c.isDigit = true)
    (hfraction : ∀ c ∈ fraction, c.isDigit = true) (htail : NoDigit tail) :
    numeral (whole ++ '.' :: (fraction ++ tail)) =
      digitsValue (whole ++ fraction) * 10 ^ ((exponent? tail).getD 0 - fraction.length) := by
  have hpoint : NoDigit ('.' :: (fraction ++ tail)) := by
    rintro c ⟨⟩
    rfl
  rw [numeral, takeWhile_digits hwhole hpoint, dropWhile_digits hwhole hpoint]
  simp only [fractionDigits, afterFraction, takeWhile_digits hfraction htail,
    dropWhile_digits hfraction htail]

/-- A numeral without a decimal point. -/
theorem numeral_whole {whole tail : List Char} (hwhole : ∀ c ∈ whole, c.isDigit = true)
    (htail : NoDigit tail) (hpoint : ∀ c ∈ tail.head?, c ≠ '.') :
    numeral (whole ++ tail) = digitsValue whole * 10 ^ (exponent? tail).getD 0 := by
  have hfraction : fractionDigits tail = [] ∧ afterFraction tail = tail := by
    cases tail with
    | nil => exact ⟨rfl, rfl⟩
    | cons c cs =>
      have hc := hpoint c rfl
      constructor
      · unfold fractionDigits
        split
        · next heq =>
          cases heq
          exact absurd rfl hc
        · rfl
      · unfold afterFraction
        split
        · next heq =>
          cases heq
          exact absurd rfl hc
        · rfl
  rw [numeral, takeWhile_digits hwhole htail, dropWhile_digits hwhole htail, hfraction.1, hfraction.2,
    append_nil, length_nil, Nat.cast_zero, sub_zero]

/-- A text that begins with neither a digit nor a point has no value. -/
theorem numeral_eq_zero {c : Char} {cs : List Char} (hc : c.isDigit = false) (hpoint : c ≠ '.') :
    numeral (c :: cs) = 0 := by
  have hwhole : ∀ d ∈ ([] : List Char), d.isDigit = true := by simp
  have h := numeral_whole hwhole (show NoDigit (c :: cs) by rintro d ⟨⟩; exact hc)
    (by rintro d ⟨⟩; exact hpoint)
  rw [nil_append] at h
  rw [h]
  simp [digitsValue]

/-! ## Layouts -/

theorem digitsValue_append (as bs : List Char) :
    digitsValue (as ++ bs) = Nat.ofDigitChars 10 bs (digitsValue as) := by
  have h : ∀ cs, digitsValue cs = Nat.ofDigitChars 10 cs 0 := fun _ => rfl
  rw [h, h, Nat.ofDigitChars_append]

theorem digitsValue_append_zeros (ds : List Char) (n : ℕ) :
    digitsValue (ds ++ replicate n '0') = 10 ^ n * digitsValue ds := by
  rw [digitsValue_append, Nat.ofDigitChars_replicate_zero]

theorem digitsValue_zeros_append (ds : List Char) (n : ℕ) :
    digitsValue (replicate n '0' ++ ds) = digitsValue ds := by
  have hzeros := digitsValue_append_zeros [] n
  rw [nil_append] at hzeros
  rw [digitsValue_append, hzeros]
  rfl

theorem digitsValue_natText (n : ℕ) : digitsValue (toString n).toList = n :=
  ofDigitChars_natText n

/-- The exponent as it is written. -/
def exponentText (e : ℤ) : List Char :=
  'e' :: (if e < 0 then '-' else '+') :: (toString e.natAbs).toList

theorem exponent?_exponentText (e : ℤ) : exponent? (exponentText e) = some e := by
  have hsign : takeSign ((if e < 0 then '-' else '+') :: (toString e.natAbs).toList) =
      (decide (e < 0), (toString e.natAbs).toList) := by
    by_cases h : e < 0
    · rw [if_pos h, decide_eq_true h]
      rfl
    · rw [if_neg h, decide_eq_false h]
      rfl
  have hdigits : ((toString e.natAbs).toList.isEmpty || !(toString e.natAbs).toList.all Char.isDigit) =
      false := by
    rw [Bool.or_eq_false_iff, Bool.not_eq_false', all_eq_true]
    exact ⟨isEmpty_eq_false_iff.mpr (natText_ne_nil _), isDigit_of_mem_natText⟩
  rw [exponentText, exponent?, if_pos (.inl rfl), hsign]
  simp only [hdigits, digitsValue_natText, Bool.false_eq_true, if_false, decide_eq_true_eq]
  split
  · rw [Option.some.injEq]
    omega
  · rw [Option.some.injEq]
    omega

theorem noDigit_exponentText (e : ℤ) : NoDigit (exponentText e) := by
  rintro c ⟨⟩
  rfl

variable {ds : String}

theorem toList_zeros (n : ℕ) : (zeros n).toList = replicate n '0' :=
  String.toList_ofList

theorem isDigit_of_mem_replicate {n : ℕ} : ∀ c ∈ replicate n '0', c.isDigit = true := by
  intro c hc
  rw [eq_of_mem_replicate hc]
  rfl

/-- Digits behind the point and zeros. -/
theorem numeral_small (h : ∀ c ∈ ds.toList, c.isDigit = true) (n : ℕ) :
    numeral ("0." ++ zeros n ++ ds).toList = digitsValue ds.toList * 10 ^ (-(n : ℤ) - ds.length) := by
  have htext : ("0." ++ zeros n ++ ds).toList = ['0'] ++ '.' :: (replicate n '0' ++ ds.toList ++ []) := by
    simp [toList_zeros]
  rw [htext, numeral_point (forall_mem_singleton.mpr rfl)
    (forall_mem_append.mpr ⟨isDigit_of_mem_replicate, h⟩) (by simp [NoDigit]), length_append, length_replicate, String.length_toList, ← append_assoc]
  have hzero : digitsValue (['0'] ++ replicate n '0' ++ ds.toList) = digitsValue ds.toList :=
    digitsValue_zeros_append ds.toList (n + 1)
  rw [hzero]
  congr 2
  simp [exponent?]
  ring

/-- Digits and zeros in front of the point. -/
theorem numeral_large (h : ∀ c ∈ ds.toList, c.isDigit = true) (n : ℕ) :
    numeral (ds ++ zeros n ++ ".0").toList = digitsValue ds.toList * 10 ^ (n : ℤ) := by
  have htext : (ds ++ zeros n ++ ".0").toList = ds.toList ++ replicate n '0' ++ '.' :: (['0'] ++ []) := by
    simp [toList_zeros]
  have hzero : ds.toList ++ replicate n '0' ++ ['0'] = ds.toList ++ replicate (n + 1) '0' := by
    rw [append_assoc, replicate_succ']
  rw [htext, numeral_point (forall_mem_append.mpr ⟨h, isDigit_of_mem_replicate⟩)
    (forall_mem_singleton.mpr rfl) (by simp [NoDigit]), hzero, digitsValue_append_zeros]
  simp [exponent?, pow_succ]
  ring

/-- Digits on both sides of the point. -/
theorem numeral_split (h : ∀ c ∈ ds.toList, c.isDigit = true) {k : ℕ} (hk : k ≤ ds.length) :
    numeral (String.ofList (ds.toList.take k) ++ "." ++ String.ofList (ds.toList.drop k)).toList =
      digitsValue ds.toList * 10 ^ ((k : ℤ) - ds.length) := by
  have htext : (String.ofList (ds.toList.take k) ++ "." ++ String.ofList (ds.toList.drop k)).toList =
      ds.toList.take k ++ '.' :: (ds.toList.drop k ++ []) := by
    simp
  rw [htext, numeral_point (fun c hc => h c (mem_of_mem_take hc)) (fun c hc => h c (mem_of_mem_drop hc))
    (by simp [NoDigit]), take_append_drop, length_drop, String.length_toList, Nat.cast_sub hk]
  congr 2
  simp [exponent?]

theorem numeral_placed {layout : Layout} (hlayout : layout.fraction = true)
    (h : ∀ c ∈ ds.toList, c.isDigit = true) (point : ℤ) :
    numeral (placed layout ds point).toList = digitsValue ds.toList * 10 ^ (point - ds.length) := by
  unfold placed
  rw [hlayout]
  dsimp only
  by_cases hsmall : point ≤ 0
  · rw [if_pos hsmall, numeral_small h, Int.toNat_of_nonneg (by omega), neg_neg]
  · rw [if_neg hsmall]
    by_cases hwhole : (ds.length : ℤ) ≤ point
    · rw [if_pos hwhole, ← Int.toNat_of_nonneg (show 0 ≤ point - ds.length by omega)]
      exact numeral_large h _
    · obtain ⟨k, rfl⟩ : ∃ k : ℕ, point = k := ⟨point.toNat, by omega⟩
      rw [if_neg hwhole]
      exact numeral_split h (by omega)

theorem numeral_scientific (h : ∀ c ∈ ds.toList, c.isDigit = true) (hne : ds.toList ≠ []) (point : ℤ) :
    numeral (scientific ds point).toList = digitsValue ds.toList * 10 ^ (point - ds.length) := by
  have htext : ∀ cs : List Char, (String.ofList cs ++ "e" ++ (if point - 1 < 0 then "-" else "+")
      ++ toString (point - 1).natAbs).toList = cs ++ exponentText (point - 1) := by
    intro cs
    rw [exponentText]
    split <;> simp
  have hexponent := exponent?_exponentText (point - 1)
  rw [← String.length_toList]
  unfold scientific
  dsimp only
  split
  · next hnil => exact absurd hnil hne
  · next d hd =>
    rw [hd] at h ⊢
    rw [htext, numeral_whole h (noDigit_exponentText _) (by rintro c ⟨⟩; decide), hexponent]
    rfl
  · next d cs _ hd =>
    rw [hd, forall_mem_cons] at h
    have hpoint : d :: '.' :: cs ++ exponentText (point - 1) =
        [d] ++ '.' :: (cs ++ exponentText (point - 1)) := rfl
    rw [hd, htext, hpoint, numeral_point (forall_mem_singleton.mpr h.1) h.2 (noDigit_exponentText _),
      hexponent, Option.getD_some, length_cons, Nat.cast_succ, singleton_append]
    congr 2
    ring

/-- **A decimal is written as a numeral of its value.** -/
theorem numeral_write {layout : Layout} (hlayout : layout.fraction = true) (d : Scaled) :
    numeral (d.write layout).toList = d.value := by
  have hdigits := isDigit_of_mem_natText (n := d.digits)
  have hvalue : ∀ n : ℤ, (digitsValue (toString d.digits).toList : ℚ) * 10 ^ (n + d.exponent - n) =
      d.value := by
    intro n
    rw [digitsValue_natText, add_sub_cancel_left, Scaled.value]
  unfold Scaled.write
  dsimp only
  split
  · rw [← hvalue]
    exact numeral_placed hlayout hdigits _
  · split
    · rw [← hvalue]
      exact numeral_placed hlayout hdigits _
    · rw [← hvalue]
      exact numeral_scientific hdigits (natText_ne_nil _) _

/-- A decimal is written with a point or with an exponent. -/
theorem exists_mark_write {layout : Layout} (hlayout : layout.fraction = true) (d : Scaled) :
    ∃ c ∈ (d.write layout).toList, c = '.' ∨ c = 'e' := by
  have hplaced : ∀ (ds : String) (point : ℤ), '.' ∈ (placed layout ds point).toList := by
    intro ds point
    unfold placed
    rw [hlayout]
    dsimp only
    split
    · simp
    · split <;> simp
  have hscientific : ∀ (ds : String) (point : ℤ), 'e' ∈ (scientific ds point).toList := by
    intro ds point
    simp [scientific]
  unfold Scaled.write
  dsimp only
  split
  · exact ⟨'.', hplaced _ _, .inl rfl⟩
  · split
    · exact ⟨'.', hplaced _ _, .inl rfl⟩
    · exact ⟨'e', hscientific _ _, .inr rfl⟩

/-! ## Doubles -/

theorem legal_subnormal {fraction : ℕ} (hpos : fraction ≠ 0) (hlt : fraction < 2 ^ 52) :
    Binary.Legal ⟨fraction, -1074, false⟩ where
  pos := Nat.pos_of_ne_zero hpos
  lt := hlt.trans (by decide)
  least := Int.le_refl _
  greatest := by dsimp only; decide
  normal h := absurd h (Int.lt_irrefl _)
  tight_iff := ⟨fun h => absurd h Bool.false_ne_true, fun h => absurd h.2 (Int.lt_irrefl _)⟩

theorem legal_normal {exponent fraction : ℕ} (hpos : exponent ≠ 0) (hexponent : exponent < 2047)
    (hlt : fraction < 2 ^ 52) :
    Binary.Legal ⟨2 ^ 52 + fraction, (exponent : ℤ) - 1075, fraction = 0 && 1 < exponent⟩ where
  pos := by dsimp only; omega
  lt := by dsimp only; omega
  least := by dsimp only; omega
  greatest := by dsimp only; omega
  normal _ := by dsimp only; omega
  tight_iff := by
    simp only [Bool.and_eq_true, decide_eq_true_eq]
    omega

/-- The magnitude that the exponent's and the fraction's bits stand for. -/
def Magnitude.ofFields (exponent fraction : ℕ) : Magnitude :=
  if exponent = 2047 then if fraction = 0 then .infinite else .nan
  else if exponent = 0 then if fraction = 0 then .zero else .finite ⟨fraction, -1074, false⟩
  else .finite ⟨2 ^ 52 + fraction, (exponent : ℤ) - 1075, fraction = 0 && 1 < exponent⟩

/-- The bits of the exponent. -/
def exponentField (f : Float) : ℕ :=
  f.toBits.toNat / 2 ^ 52 % 2 ^ 11

/-- The bits of the fraction. -/
def fractionField (f : Float) : ℕ :=
  f.toBits.toNat % 2 ^ 52

theorem exponentField_lt (f : Float) : exponentField f < 2048 :=
  Nat.mod_lt _ (by decide)

theorem fractionField_lt (f : Float) : fractionField f < 2 ^ 52 :=
  Nat.mod_lt _ (by decide)

theorem decode_eq (f : Float) : decode f =
    (decide (f.toBits.toNat / 2 ^ 63 = 1), .ofFields (exponentField f) (fractionField f)) := by
  unfold decode Magnitude.ofFields exponentField fractionField
  simp only [Nat.pow_eq]
  split
  · rfl
  · split <;> rfl

theorem legal_of_ofFields {exponent fraction : ℕ} {x : Binary} (hexponent : exponent < 2048)
    (hfraction : fraction < 2 ^ 52) (h : Magnitude.ofFields exponent fraction = .finite x) : x.Legal := by
  unfold Magnitude.ofFields at h
  split at h
  · split at h <;> cases h
  · split at h
    · split at h
      · cases h
      · next hpos =>
        cases h
        exact legal_subnormal hpos hfraction
    · next hpos =>
      cases h
      exact legal_normal hpos (by omega) hfraction

/-- A finite positive double decodes to a legal number. -/
theorem legal_of_decode {f : Float} {x : Binary} (h : (decode f).2 = .finite x) : x.Legal := by
  rw [decode_eq] at h
  exact legal_of_ofFields (exponentField_lt f) (fractionField_lt f) h

/-- The fields are determined by their magnitude, unless it is no number. -/
theorem ofFields_inj {e e' n n' : ℕ} (hn : n < 2 ^ 52) (hn' : n' < 2 ^ 52)
    (h : Magnitude.ofFields e n = .ofFields e' n') (hnan : Magnitude.ofFields e n ≠ .nan) :
    e = e' ∧ n = n' := by
  unfold Magnitude.ofFields at h hnan
  grind

/-- A double is determined by its sign and magnitude, unless it is no number. -/
theorem eq_of_decode {f g : Float} (h : decode f = decode g) (hnan : (decode f).2 ≠ .nan) : f = g := by
  have hf : f.toBits.toNat < 2 ^ 64 := f.toBits.toNat_lt
  have hg : g.toBits.toNat < 2 ^ 64 := g.toBits.toNat_lt
  rw [decode_eq, decode_eq, Prod.mk.injEq, decide_eq_decide] at h
  rw [decode_eq] at hnan
  obtain ⟨hexponent, hfraction⟩ := ofFields_inj (fractionField_lt f) (fractionField_lt g) h.2 hnan
  unfold exponentField at hexponent
  unfold fractionField at hfraction
  have hbits : f.toBits = g.toBits := UInt64.toNat_inj.mp (by omega)
  cases f with | ofModel f => cases g with | ofModel g =>
    cases f
    cases g
    cases hbits
    rfl

/-- Whether a double is a number. -/
def Magnitude.isNumber : Magnitude → Bool
  | .nan | .infinite => false
  | .zero | .finite _ => true

/-- A word that is not spelled like a number. -/
def IsWord (s : String) : Prop :=
  ∃ c cs, s.toList = c :: cs ∧ c.isDigit = false ∧ c ∉ ".-".toList

/-- Layouts with a mark in every number, and with words for what is none. -/
structure Layout.Legible (layout : Layout) : Prop where
  fraction : layout.fraction = true
  nan : IsWord layout.nan
  infinite : IsWord layout.infinite

theorem legible_jsonLayout : jsonLayout.Legible :=
  ⟨rfl, ⟨'n', "ull".toList, rfl, by decide, by decide⟩, ⟨'n', "ull".toList, rfl, by decide, by decide⟩⟩

theorem legible_fractionLayout : fractionLayout.Legible :=
  ⟨rfl, ⟨'N', "aN".toList, rfl, by decide, by decide⟩, ⟨'i', "nf".toList, rfl, by decide, by decide⟩⟩

/-- A magnitude as it is written. -/
def Magnitude.text (layout : Layout) : Magnitude → List Char
  | .nan => layout.nan.toList
  | .infinite => layout.infinite.toList
  | .zero => "0.0".toList
  | .finite x => (x.shortest.write layout).toList

theorem toList_writeJson (f : Float) : (writeJson f).toList =
    (if (decode f).1 && (decode f).2.isNumber then ['-'] else []) ++ (decode f).2.text jsonLayout := by
  unfold writeJson write
  obtain ⟨negative, magnitude⟩ := decode f
  cases magnitude <;> cases negative <;> simp [Magnitude.isNumber, Magnitude.text, jsonLayout]

theorem writeJson_eq_null {f : Float} (h : (decode f).2.isNumber = false) : writeJson f = "null" := by
  rw [← String.toList_inj, toList_writeJson, h, Bool.and_false, if_neg Bool.false_ne_true, nil_append]
  cases hmag : (decode f).2 with
  | nan | infinite => rfl
  | zero | finite x =>
    rw [hmag] at h
    cases h

variable {layout : Layout}

theorem numeral_shortest_pos (hlayout : layout.fraction = true) {x : Binary} (hx : x.Legal) :
    0 < numeral (x.shortest.write layout).toList := by
  rw [numeral_write hlayout]
  exact (Binary.reads_shortest hx).pos hx

/-- The legal magnitudes: those that doubles decode to. -/
def Magnitude.Legal : Magnitude → Prop
  | .finite x => x.Legal
  | _ => True

theorem legal_magnitude (f : Float) : (decode f).2.Legal := by
  unfold Magnitude.Legal
  split
  · next h => exact legal_of_decode h
  · trivial

/-- No magnitude is written with a sign. -/
theorem text_ne_minus (hlayout : layout.Legible) {a : Magnitude} (ha : a.Legal) (cs : List Char) :
    a.text layout ≠ '-' :: cs := by
  have hword : ∀ s, IsWord s → s.toList ≠ '-' :: cs := by
    rintro s ⟨c, rest, hs, -, hc⟩ hminus
    rw [hs] at hminus
    rw [(cons.inj hminus).1] at hc
    exact hc (by decide)
  intro h
  cases a with
  | nan => exact hword _ hlayout.nan h
  | infinite => exact hword _ hlayout.infinite h
  | zero => cases h
  | finite x =>
    have hpos := numeral_shortest_pos hlayout.fraction ha
    rw [Magnitude.text] at h
    rw [h, numeral_eq_zero (by decide) (by decide)] at hpos
    exact lt_irrefl 0 hpos

theorem numeral_word {s : String} (h : IsWord s) : numeral s.toList = 0 := by
  obtain ⟨c, cs, hs, hdigit, hmark⟩ := h
  rw [hs]
  refine numeral_eq_zero hdigit ?_
  rintro rfl
  exact hmark (by decide)

/-- What is not finite and positive is no numeral of a positive value. -/
theorem numeral_text_eq_zero (hlayout : layout.Legible) {a : Magnitude} (h : ∀ x, a ≠ .finite x) :
    numeral (a.text layout) = 0 := by
  cases a with
  | nan => exact numeral_word hlayout.nan
  | infinite => exact numeral_word hlayout.infinite
  | zero =>
    have hpoint : Magnitude.zero.text layout = ['0'] ++ '.' :: (['0'] ++ []) := rfl
    rw [hpoint, numeral_point (forall_mem_singleton.mpr rfl) (forall_mem_singleton.mpr rfl)
      (by simp [NoDigit])]
    simp [digitsValue]
  | finite x => exact absurd rfl (h x)

/-- Magnitudes that are written alike are the same, or no numbers. -/
theorem text_inj (hlayout : layout.Legible) {a b : Magnitude} (ha : a.Legal) (hb : b.Legal)
    (h : a.text layout = b.text layout) : a = b ∨ a.isNumber = false ∧ b.isNumber = false := by
  have hnumeral := congrArg numeral h
  have hword : ∀ s, IsWord s → s.toList ≠ "0.0".toList := by
    rintro s ⟨c, cs, hs, hc, -⟩ hzero
    rw [hs] at hzero
    rw [(cons.inj hzero).1] at hc
    cases hc
  by_cases hfa : ∃ x, a = .finite x
  · obtain ⟨x, rfl⟩ := hfa
    have hpos := numeral_shortest_pos hlayout.fraction ha
    by_cases hfb : ∃ y, b = .finite y
    · obtain ⟨y, rfl⟩ := hfb
      rw [Magnitude.text, Magnitude.text, numeral_write hlayout.fraction,
        numeral_write hlayout.fraction] at hnumeral
      rw [Binary.eq_of_shortest_value ha hb hnumeral]
      exact .inl rfl
    · rw [numeral_text_eq_zero hlayout (not_exists.mp hfb)] at hnumeral
      exact absurd hnumeral hpos.ne'
  · rw [numeral_text_eq_zero hlayout (not_exists.mp hfa)] at hnumeral
    cases b with
    | finite y => exact absurd hnumeral.symm (numeral_shortest_pos hlayout.fraction hb).ne'
    | nan =>
      cases a with
      | zero => exact absurd h.symm (hword _ hlayout.nan)
      | nan | infinite => exact .inr ⟨rfl, rfl⟩
      | finite x => exact absurd ⟨x, rfl⟩ hfa
    | infinite =>
      cases a with
      | zero => exact absurd h.symm (hword _ hlayout.infinite)
      | nan | infinite => exact .inr ⟨rfl, rfl⟩
      | finite x => exact absurd ⟨x, rfl⟩ hfa
    | zero =>
      cases a with
      | zero => exact .inl rfl
      | nan => exact absurd h (hword _ hlayout.nan)
      | infinite => exact absurd h (hword _ hlayout.infinite)
      | finite x => exact absurd ⟨x, rfl⟩ hfa

/-- Signed magnitudes that are written alike have the same sign and are written alike without it. -/
theorem sign_text_inj (hlayout : layout.Legible) {a b : Magnitude} (ha : a.Legal) (hb : b.Legal)
    {m n : Bool}
    (h : (if m then ['-'] else []) ++ a.text layout = (if n then ['-'] else []) ++ b.text layout) :
    m = n ∧ a.text layout = b.text layout := by
  cases m with
  | false =>
    cases n with
    | false => exact ⟨rfl, h⟩
    | true => exact absurd h (text_ne_minus hlayout ha _)
  | true =>
    cases n with
    | false => exact absurd h.symm (text_ne_minus hlayout hb _)
    | true => exact ⟨rfl, (cons.inj h).2⟩

/-- **A double is determined by how it is written**, unless it is no number. -/
theorem writeJson_inj {f g : Float} (h : writeJson f = writeJson g) :
    f = g ∨ (decode f).2.isNumber = false ∧ (decode g).2.isNumber = false := by
  have htext := congrArg String.toList h
  rw [toList_writeJson, toList_writeJson] at htext
  have hf := legal_magnitude f
  have hg := legal_magnitude g
  obtain ⟨hsign, htext⟩ := sign_text_inj legible_jsonLayout hf hg htext
  refine (text_inj legible_jsonLayout hf hg htext).elim (fun hmag => ?_) .inr
  cases hnumber : (decode f).2.isNumber with
  | false => exact .inr ⟨rfl, hmag ▸ hnumber⟩
  | true =>
    rw [← hmag, hnumber, Bool.and_true, Bool.and_true] at hsign
    refine .inl (eq_of_decode (Prod.ext hsign hmag) fun hnan => ?_)
    rw [hnan] at hnumber
    cases hnumber

/-- **The number written for a double is the same exactly if the double is, or neither is a
number.** -/
theorem writeJson_eq_iff {f g : Float} : writeJson f = writeJson g ↔
    f = g ∨ (decode f).2.isNumber = false ∧ (decode g).2.isNumber = false := by
  refine ⟨writeJson_inj, ?_⟩
  rintro (rfl | ⟨hf, hg⟩)
  · rfl
  · rw [writeJson_eq_null hf, writeJson_eq_null hg]

/-! ## Doubles in documentation -/

theorem toList_write (hlayout : layout.fraction = true) (f : Float) : (write layout f).toList =
    (if (decode f).1 && (decode f).2 != .nan then ['-'] else []) ++ (decode f).2.text layout := by
  unfold write
  rw [hlayout]
  obtain ⟨negative, magnitude⟩ := decode f
  cases magnitude <;> cases negative <;> simp [Magnitude.text]

/-- **A double reads the same in documentation exactly if it is the same, or neither is a number or
infinite.** -/
theorem write_fractionLayout_eq_iff {f g : Float} : write fractionLayout f = write fractionLayout g ↔
    f = g ∨ (decode f).2 = .nan ∧ (decode g).2 = .nan := by
  constructor
  · intro h
    have htext := congrArg String.toList h
    rw [toList_write rfl, toList_write rfl] at htext
    have hf := legal_magnitude f
    have hg := legal_magnitude g
    obtain ⟨hsign, htext⟩ := sign_text_inj legible_fractionLayout hf hg htext
    have hmag : (decode f).2 = (decode g).2 := by
      refine (text_inj legible_fractionLayout hf hg htext).elim id fun hno => ?_
      -- the words for what is no number differ
      revert hno htext
      cases (decode f).2 <;> cases (decode g).2 <;> simp [Magnitude.isNumber, Magnitude.text] <;> decide
    by_cases hnan : (decode f).2 = .nan
    · exact .inr ⟨hnan, hmag ▸ hnan⟩
    · rw [← hmag, bne_iff_ne.mpr hnan, Bool.and_true, Bool.and_true] at hsign
      exact .inl (eq_of_decode (Prod.ext hsign hmag) hnan)
  · rintro (rfl | ⟨hf, hg⟩)
    · rfl
    · rw [← String.toList_inj, toList_write rfl, toList_write rfl, hf, hg]
      simp

end AttributeRegistry.Decimal
