import AttributeRegistry.Proofs.Json.Reading

/-!
# Reading any value

Main statement: a value reads back as itself if its integers fit 64 bits, each of its doubles reads
back, and it is not nested too deep (`reads_value`).
-/

namespace AttributeRegistry.Json

open Text (isDigit_of_mem_natText natText_ne_nil toList_negSucc)

/-- A value with at most `depth` levels of nesting whose numbers read back. -/
inductive Readable : Nat → Json → Prop
  | null {depth : Nat} : Readable depth .null
  | bool {depth : Nat} (b : Bool) : Readable depth (.bool b)
  | int {depth : Nat} {n : Int} (hlow : -2 ^ 63 ≤ n) (hhigh : n < 2 ^ 64) : Readable depth (.int n)
  | float {depth : Nat} {x : Float} (h : parse (Decimal.writeJson x) = .ok (.float x)) :
    Readable depth (.float x)
  | str {depth : Nat} (s : String) : Readable depth (.str s)
  | arr {depth : Nat} {vs : List Json} (h : ∀ v ∈ vs, Readable depth v) :
    Readable (depth + 1) (.arr vs)
  | obj {depth : Nat} {ms : List (String × Json)} (h : ∀ m ∈ ms, Readable depth m.2) :
    Readable (depth + 1) (.obj ms)

variable {depth : Nat} {gap rest : List Char}

/-! ## Numbers -/

theorem value_minus (hgap : Gap gap) (cs : List Char) :
    value depth (gap ++ '-' :: cs) = readNumber false cs := by
  rw [value.eq_def, skipGap_append hgap, skipGap_cons (by decide)]
  rfl

theorem value_digit (hgap : Gap gap) {c : Char} (hc : c.isDigit = true) (cs : List Char) :
    value depth (gap ++ c :: cs) = readNumber true (c :: cs) := by
  have hblank : isGap c = false := by
    rw [Bool.eq_false_iff]
    intro h
    simp only [isGap, Bool.or_eq_true, decide_eq_true_eq] at h
    rcases h with ((rfl | rfl) | rfl) | rfl <;> exact absurd hc (by decide)
  rw [value.eq_def, skipGap_append hgap, skipGap_cons hblank]
  -- no other kind of value begins with a digit
  split <;> first
    | (next h => cases h; exact absurd hc (by decide))
    | skip
  · next h => cases h
  · next h =>
    cases h
    exact if_pos hc

theorem reads_value_int {n : Int} (hlow : -2 ^ 63 ≤ n) (hhigh : n < 2 ^ 64) :
    Reads (value depth) (.int n) (.int n) := by
  intro gap cs rest hgap hs hrest
  cases hs
  cases n with
  | ofNat n =>
    have hread := readNumber_natText (n := n) (by simpa using hhigh) hrest
    obtain ⟨c, tail, htail⟩ := List.exists_cons_of_ne_nil (natText_ne_nil n)
    have hdigit := isDigit_of_mem_natText c (htail ▸ List.mem_cons_self)
    have htext : (toString (Int.ofNat n)).toList = c :: tail := htail
    rw [htail] at hread
    rw [htext, List.cons_append, value_digit hgap hdigit]
    exact hread
  | negSucc n =>
    rw [toList_negSucc, List.cons_append, value_minus hgap]
    have hfits : n + 1 ≤ 2 ^ 63 := by omega
    exact readNumber_negative hfits hrest

/-- A text of the characters of numbers that has a value is a number behind its sign. -/
theorem exists_readNumber {cs last : List Char} {v : Json} (h : Text.Numeric cs)
    (hv : value maxDepth cs = .ok (v, last)) : ∃ positive tail, tail <:+ cs ∧
      ∀ depth gap rest, Gap gap → value depth (gap ++ (cs ++ rest)) = readNumber positive (tail ++ rest) := by
  cases cs with
  | nil => cases hv
  | cons c cs =>
    rcases h c List.mem_cons_self with hdigit | hmark
    · exact ⟨true, c :: cs, List.suffix_rfl, fun _ _ rest hgap => value_digit hgap hdigit (cs ++ rest)⟩
    · have hcases : c = '-' ∨ c = '+' ∨ c = '.' ∨ c = 'e' := by simpa using hmark
      rcases hcases with rfl | rfl | rfl | rfl
      · exact ⟨false, cs, List.suffix_cons _ cs, fun _ _ rest hgap => value_minus hgap (cs ++ rest)⟩
      -- no number begins with any other mark
      all_goals cases hv

/-- The value of a whole text is read first, and nothing but blanks behind it. -/
theorem exists_value_of_parse {text : String} {v : Json} (h : parse text = .ok v) :
    ∃ last, value maxDepth text.toList = .ok (v, last) ∧ skipGap last = [] := by
  unfold parse at h
  cases hv : value maxDepth text.toList with
  | error f =>
    rw [hv] at h
    cases h
  | ok p =>
    obtain ⟨w, last⟩ := p
    rw [hv] at h
    simp only [Bind.bind, Except.bind] at h
    split at h
    · next hlast =>
      cases h
      exact ⟨last, rfl, hlast⟩
    · cases h

/-- **A double whose own text reads back is read back from wherever it is written.** -/
theorem reads_value_float {x : Float} (h : parse (Decimal.writeJson x) = .ok (.float x)) :
    Reads (value depth) (.float x) (.float x) := by
  intro gap cs rest hgap hs hrest
  cases hs
  obtain ⟨last, hv, hlast⟩ := exists_value_of_parse h
  by_cases hnumber : (Decimal.decode x).2.isNumber = true
  · obtain ⟨hnumeric, -⟩ := numeric_writeJson hnumber
    obtain ⟨positive, tail, htail, hread⟩ := exists_readNumber hnumeric hv
    have hwhole := hread maxDepth [] [] gap_nil
    rw [List.nil_append, List.append_nil, List.append_nil, hv] at hwhole
    obtain ⟨hsuffix, hpart⟩ := part_readNumber _ _ _ hwhole.symm
    -- what was left over has neither blanks nor anything else
    have hnil : last = [] := by
      cases last with
      | nil => rfl
      | cons c cs =>
        obtain ⟨d, ds, hd, hblank, -⟩ := begins_of_numeric
          (hnumeric.sublist (hsuffix.trans htail).sublist) (List.cons_ne_nil c cs)
        rw [hd, skipGap_cons hblank] at hlast
        cases hlast
    rw [hread depth gap rest hgap, hpart rest hrest, hnil, List.nil_append]
  · rw [Decimal.writeJson_eq_null (Bool.eq_false_iff.mpr hnumber)] at hv
    cases hv

/-! ## Values -/

/-- Puts the value behind a name and its colon in front of the members read before. -/
def readMember (depth : Nat) (key : String) (ms : List (String × Json)) :
    Reader (List (String × Json)) := fun cs => do
  let (_, rest) ← readColon cs
  let (v, rest) ← value depth rest
  return ((key, v) :: ms, rest)

theorem takes_readMember {ms : List (String × Json)} (h : ∀ m ∈ ms, Reads (value depth) m.2 m.2)
    (before : List (String × Json)) : Takes (readMember depth) before ms (ms.reverse ++ before) := by
  induction ms generalizing before with
  | nil => exact .nil before
  | cons m ms ih =>
    rw [List.forall_mem_cons] at h
    rw [List.reverse_cons, List.append_assoc, List.singleton_append]
    refine .cons ?_ (ih h.2 (m :: before))
    intro gap cs rest hgap hs hrest
    have hcolon : ∀ cs, readColon (':' :: cs) = .ok ((), cs) := fun _ => rfl
    simp only [readMember, hcolon, Bind.bind, Except.bind, h.1 hgap hs hrest]
    rfl

/-- **A value whose numbers read back reads back as itself**, if it is not nested too deep. -/
theorem reads_value {v : Json} (h : Readable depth v) : Reads (value depth) v v := by
  induction h with
  | null =>
    intro gap cs rest hgap hs _
    cases hs
    rw [value.eq_def, skipGap_append hgap]
    rfl
  | bool b =>
    intro gap cs rest hgap hs _
    cases hs
    rw [value.eq_def, skipGap_append hgap]
    cases b <;> rfl
  | int hlow hhigh => exact reads_value_int hlow hhigh
  | float h => exact reads_value_float h
  | str s =>
    intro gap cs rest hgap hs _
    cases hs
    rw [value.eq_def, skipGap_writeString hgap]
    simp only [readString_flatMap, Bind.bind, Except.bind]
    rfl
  | @arr depth vs _ ih =>
    intro gap cs rest hgap hs _
    cases hs with
    | arr hitems =>
      have hreads : List.Forall₂ (Reads (value depth)) vs vs := List.forall₂_same.mpr ih
      rw [value.eq_def, skipGap_append hgap, List.cons_append, skipGap_cons (by decide)]
      simp only [items_of_spells hreads hitems, leaving]
      rfl
  | @obj depth ms _ ih =>
    intro gap cs rest hgap hs _
    cases hs with
    | obj hmembers =>
      have hread := members_of_spells (takes_readMember ih []) hmembers rest
      rw [value.eq_def, skipGap_append hgap, List.cons_append, skipGap_cons (by decide)]
      unfold readMember at hread
      simp only [hread, leaving, List.append_nil]
      change Except.ok (Json.obj ms.reverse.reverse, rest) = _
      rw [List.reverse_reverse]

end AttributeRegistry.Json
