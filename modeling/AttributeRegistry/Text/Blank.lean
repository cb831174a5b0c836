/-!
# Blank characters

The characters of the Unicode property `White_Space`, and trimming by it. Everything in the library
that calls a text *blank*, or trims one, means this property.

Main statements: a text whose beginning was trimmed begins with no blank
(`not_isBlank_of_trimStart_eq_cons`), and trimming keeps a text without blanks as it is
(`trim_of_forall`).
-/

namespace AttributeRegistry.Text

/-- The code points of the property `White_Space`. -/
def blanks : List Nat :=
  [0x09, 0x0A, 0x0B, 0x0C, 0x0D, 0x20, 0x85, 0xA0, 0x1680,
   0x2000, 0x2001, 0x2002, 0x2003, 0x2004, 0x2005, 0x2006, 0x2007, 0x2008, 0x2009, 0x200A,
   0x2028, 0x2029, 0x202F, 0x205F, 0x3000]

/-- Whether a character has the property `White_Space`. -/
def isBlank (c : Char) : Bool :=
  blanks.contains c.toNat

/-! ## Trimming -/

/-- Drops the blanks a text begins with. -/
def trimStart (cs : List Char) : List Char :=
  cs.dropWhile isBlank

/-- Drops the characters satisfying `p` that a text ends with. -/
def dropEndWhile (p : Char → Bool) (cs : List Char) : List Char :=
  (cs.reverse.dropWhile p).reverse

/-- Drops the blanks a text ends with. -/
def trimEnd (cs : List Char) : List Char :=
  dropEndWhile isBlank cs

/-- Drops the blanks at both ends of a text. -/
def trim (cs : List Char) : List Char :=
  trimEnd (trimStart cs)

/-- Whether a text holds nothing but blanks. -/
def allBlank (cs : List Char) : Bool :=
  cs.all isBlank

/-- `trim` on a string. -/
def trimmed (s : String) : String :=
  String.ofList (trim s.toList)

/-- Whether a string holds nothing but blanks. -/
def isBlankText (s : String) : Bool :=
  allBlank s.toList

/-- A trimmed text does not begin with a blank. -/
theorem not_isBlank_of_trimStart_eq_cons {cs rest : List Char} {c : Char}
    (h : trimStart cs = c :: rest) : isBlank c = false := by
  induction cs with
  | nil => simp [trimStart] at h
  | cons d ds ih =>
    by_cases hd : isBlank d
    · exact ih (by simpa [trimStart, List.dropWhile_cons, hd] using h)
    · simp only [trimStart, List.dropWhile_cons, hd] at h
      simp at h
      simpa [h.1] using hd

/-- Trimming keeps a text without blanks as it is. -/
theorem trim_of_forall {cs : List Char} (h : ∀ c ∈ cs, isBlank c = false) : trim cs = cs := by
  have hkeep : ∀ ds : List Char, (∀ c ∈ ds, isBlank c = false) → ds.dropWhile isBlank = ds := by
    intro ds hds
    cases ds with
    | nil => rfl
    | cons d ds => exact List.dropWhile_cons_of_neg (by simp [hds d List.mem_cons_self])
  rw [trim, trimStart, hkeep cs h, trimEnd, dropEndWhile,
    hkeep cs.reverse fun c hc => h c (List.mem_reverse.mp hc), List.reverse_reverse]

/-- A text that begins with a character that is no blank is not blank. -/
theorem isBlankText_eq_false {text : String} {c : Char} {cs : List Char} (h : text.toList = c :: cs)
    (hc : isBlank c = false) : isBlankText text = false := by
  unfold isBlankText allBlank
  rw [h]
  simp [hc]

end AttributeRegistry.Text
