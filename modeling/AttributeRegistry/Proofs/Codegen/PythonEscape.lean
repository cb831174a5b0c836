import AttributeRegistry.Codegen.Python
import AttributeRegistry.Proofs.Text.Lines

/-!
# Escaping in documentation strings of Python

In a documentation string a backslash takes the next character with it, and the first three quotes in a
row without one end the string (`readDocstring`). Escaping exchanges twice, which comes to one pass
(`escape_eq_escaped`), and a line feed behind escaped text parts its quotes from those that follow. So
escaped text is read as the text (`reads_line`).
-/

namespace AttributeRegistry.Codegen.Python

open Text

/-! ## Reading -/

/-- The text of a documentation string that has begun, and what follows its end. Only a backslash and a
quote may stand behind a backslash, which is left out. -/
def readDocstring : List Char → Option (List Char × List Char)
  | [] => none
  | '\\' :: c :: cs =>
    if c = '\\' ∨ c = '"' then (readDocstring cs).map fun (text, rest) => (c :: text, rest) else none
  | '"' :: '"' :: '"' :: rest => some ([], rest)
  | c :: cs => (readDocstring cs).map fun (text, rest) => (c :: text, rest)

/-- A text without its documentation strings; the flag says whether it begins inside of one. -/
def undocumented : Bool → List Char → List Char
  | _, [] => []
  | false, '"' :: '"' :: '"' :: cs => undocumented true cs
  | false, c :: cs => c :: undocumented false cs
  | true, '\\' :: _ :: cs => undocumented true cs
  | true, '"' :: '"' :: '"' :: cs => undocumented false cs
  | true, _ :: cs => undocumented true cs

/-- Whether a text begins neither with a backslash nor with the end of a string. -/
def Ordinary (c : Char) (cs : List Char) : Prop :=
  c ≠ '\\' ∧ ∀ rest, c :: cs ≠ '"' :: '"' :: '"' :: rest

variable {c : Char} {cs rest : List Char}

theorem ordinary_of_cases (hbackslash : c ≠ '\\')
    (hquotes : ∀ rest, c = '"' → cs = '"' :: '"' :: rest → False) : Ordinary c cs := by
  refine ⟨hbackslash, ?_⟩
  rintro rest heq
  cases heq
  exact hquotes rest rfl rfl

theorem ordinary_of_ne (hbackslash : c ≠ '\\') (hquote : c ≠ '"') : Ordinary c cs := by
  refine ⟨hbackslash, ?_⟩
  rintro rest heq
  cases heq
  exact hquote rfl

theorem readDocstring_cons (h : Ordinary c cs) :
    readDocstring (c :: cs) = (readDocstring cs).map fun (text, rest) => (c :: text, rest) := by
  rw [readDocstring]
  · rintro d ds rfl
    exact absurd rfl h.1
  · rintro ds rfl rfl
    exact absurd rfl (h.2 ds)

theorem undocumented_cons (h : Ordinary c cs) : undocumented true (c :: cs) = undocumented true cs := by
  rw [undocumented]
  · rintro d ds rfl
    exact absurd rfl h.1
  · rintro ds rfl rfl
    exact absurd rfl (h.2 ds)

/-- What is left out of the code is what is read. -/
theorem undocumented_of_readDocstring {text : List Char} (h : readDocstring cs = some (text, rest)) :
    undocumented true cs = undocumented false rest := by
  induction cs using readDocstring.induct generalizing text with
  | case1 => cases h
  | case2 c cs hc ih =>
    rw [readDocstring, if_pos hc, Option.map_eq_some_iff] at h
    obtain ⟨⟨text', rest'⟩, hcs, heq⟩ := h
    cases heq
    rw [undocumented]
    exact ih hcs
  | case3 c cs hc =>
    rw [readDocstring, if_neg hc] at h
    cases h
  | case4 cs =>
    cases h
    rfl
  | case5 c cs hbackslash hquotes ih =>
    by_cases hc : c = '\\'
    · -- a backslash at the very end
      cases cs with
      | nil => cases hc; cases h
      | cons d ds => exact absurd rfl (hbackslash d ds hc)
    · have hordinary := ordinary_of_cases hc hquotes
      rw [readDocstring_cons hordinary, Option.map_eq_some_iff] at h
      obtain ⟨⟨text', rest'⟩, hcs, heq⟩ := h
      cases heq
      rw [undocumented_cons hordinary]
      exact ih hcs

/-- `Reads written text`: in front of anything, `written` is read as `text`. -/
def Reads (written text : List Char) : Prop :=
  ∀ rest, readDocstring (written ++ rest) =
    (readDocstring rest).map fun (text', rest') => (text ++ text', rest')

namespace Reads

variable {written text written' text' : List Char}

theorem nil : Reads [] [] := by
  intro rest
  simp

theorem append (h : Reads written text) (h' : Reads written' text') :
    Reads (written ++ written') (text ++ text') := by
  intro rest
  rw [List.append_assoc, h, h', Option.map_map]
  simp [Function.comp_def]

theorem of_not_mem (hquote : '"' ∉ cs) (hbackslash : '\\' ∉ cs) : Reads cs cs := by
  induction cs with
  | nil => exact nil
  | cons c cs ih =>
    rw [List.mem_cons, not_or] at hquote hbackslash
    intro rest
    rw [List.cons_append, readDocstring_cons (ordinary_of_ne (Ne.symm hbackslash.1) (Ne.symm hquote.1)),
      ih hquote.2 hbackslash.2, Option.map_map]
    rfl

theorem flatMap {α : Type} {as : List α} {f g : α → List Char} (h : ∀ a ∈ as, Reads (f a) (g a)) :
    Reads (as.flatMap f) (as.flatMap g) := by
  induction as with
  | nil => exact nil
  | cons a as ih =>
    rw [List.flatMap_cons, List.flatMap_cons]
    exact (h a List.mem_cons_self).append (ih fun b hb => h b (List.mem_cons_of_mem _ hb))

end Reads

/-! ## Escaping -/

/-- Escaping in one pass. -/
def escaped : List Char → List Char
  | [] => []
  | '\\' :: cs => '\\' :: '\\' :: escaped cs
  | '"' :: '"' :: '"' :: cs => '\\' :: '"' :: '\\' :: '"' :: '\\' :: '"' :: escaped cs
  | c :: cs => c :: escaped cs

theorem escaped_cons (h : Ordinary c cs) : escaped (c :: cs) = c :: escaped cs := by
  rw [escaped]
  · exact h.1
  · rintro ds rfl rfl
    exact absurd rfl (h.2 ds)

/-- The first exchange of escaping. -/
def doubled (cs : List Char) : List Char :=
  replaceAll '\\' [] ['\\', '\\'] cs

theorem doubled_backslash (cs : List Char) : doubled ('\\' :: cs) = '\\' :: '\\' :: doubled cs :=
  replaceAll_of_some rfl

theorem doubled_cons (h : c ≠ '\\') : doubled (c :: cs) = c :: doubled cs :=
  replaceAll_of_ne h

/-- A quote that comes first came first. -/
theorem exists_cons_of_doubled {ds : List Char} (h : doubled cs = '"' :: ds) :
    ∃ cs', cs = '"' :: cs' ∧ doubled cs' = ds := by
  cases cs with
  | nil =>
    rw [doubled, replaceAll_nil] at h
    cases h
  | cons c cs =>
    by_cases hc : c = '\\'
    · rw [hc, doubled_backslash] at h
      exact absurd (List.cons.inj h).1 (by decide)
    · rw [doubled_cons hc] at h
      obtain ⟨rfl, hds⟩ := List.cons.inj h
      exact ⟨cs, rfl, hds⟩

/-- Doubling backslashes does not bring quotes together. -/
theorem dropBeginning?_doubled (h : ∀ ds, cs ≠ '"' :: '"' :: ds) :
    dropBeginning? ['"', '"'] (doubled cs) = none := by
  rw [Option.eq_none_iff_forall_ne_some]
  intro ds hfirst
  obtain ⟨cs', rfl, hsecond⟩ := exists_cons_of_doubled (eq_append_of_dropBeginning? hfirst)
  obtain ⟨cs'', rfl, -⟩ := exists_cons_of_doubled hsecond
  exact h cs'' rfl

/-- **Both exchanges come to one pass.** -/
theorem escape_eq_escaped (cs : List Char) : escape cs = escaped cs := by
  show replaceAll '"' ['"', '"'] "\\\"\\\"\\\"".toList (doubled cs) = escaped cs
  induction cs using escaped.induct with
  | case1 => rw [doubled, replaceAll_nil, replaceAll_nil, escaped]
  | case2 cs ih =>
    rw [doubled_backslash, replaceAll_of_ne (by decide), replaceAll_of_ne (by decide), ih, escaped]
  | case3 cs ih =>
    rw [doubled_cons (by decide), doubled_cons (by decide), doubled_cons (by decide),
      replaceAll_of_some rfl, ih]
    rfl
  | case4 c cs hbackslash hquotes ih =>
    rw [doubled_cons hbackslash, escaped_cons (ordinary_of_cases hbackslash hquotes)]
    by_cases hc : c = '"'
    · rw [hc, replaceAll_of_none (dropBeginning?_doubled fun ds hds => hquotes ds hc hds), ih]
    · rw [replaceAll_of_ne hc, ih]

example : escaped "\\\"\"\"\"".toList = "\\\\\\\"\\\"\\\"\"".toList :=
  rfl

/-- A quote that escaped text begins with is one of the text. -/
theorem exists_cons_of_escaped_append {x : Char} {ds : List Char} (hx : x ≠ '"')
    (h : escaped cs ++ x :: rest = '"' :: ds) :
    ∃ cs', cs = '"' :: cs' ∧ escaped cs' ++ x :: rest = ds := by
  fun_cases escaped cs with
  | case1 => exact absurd (List.cons.inj h).1 hx
  | case2 cs => exact absurd (List.cons.inj h).1 (by decide)
  | case3 cs => exact absurd (List.cons.inj h).1 (by decide)
  | case4 c cs hbackslash hquotes =>
    rw [escaped_cons (ordinary_of_cases hbackslash hquotes), List.cons_append] at h
    obtain ⟨rfl, hds⟩ := List.cons.inj h
    exact ⟨cs, rfl, hds⟩

/-- Ordinary characters stay ordinary in escaped text. -/
theorem ordinary_escaped {x : Char} (hx : x ≠ '"') (h : Ordinary c cs) :
    Ordinary c (escaped cs ++ x :: rest) := by
  refine ⟨h.1, ?_⟩
  intro ds hfirst
  obtain ⟨rfl, hsecond⟩ := List.cons.inj hfirst
  obtain ⟨cs', rfl, hthird⟩ := exists_cons_of_escaped_append hx hsecond
  obtain ⟨cs'', rfl, -⟩ := exists_cons_of_escaped_append hx hthird
  exact h.2 cs'' rfl

theorem readDocstring_escaped {x : Char} (hx : x ≠ '"') (cs rest : List Char) :
    readDocstring (escaped cs ++ x :: rest) =
      (readDocstring (x :: rest)).map fun (text, rest') => (cs ++ text, rest') := by
  induction cs using escaped.induct with
  | case1 => simp [escaped]
  | case2 cs ih =>
    rw [escaped, List.cons_append, List.cons_append, readDocstring, if_pos (.inl rfl), ih, Option.map_map]
    rfl
  | case3 cs ih =>
    rw [escaped]
    simp only [List.cons_append]
    rw [readDocstring, if_pos (.inr rfl), readDocstring, if_pos (.inr rfl), readDocstring,
      if_pos (.inr rfl), ih, Option.map_map, Option.map_map, Option.map_map]
    rfl
  | case4 c cs hbackslash hquotes ih =>
    have hordinary := ordinary_of_cases hbackslash hquotes
    rw [escaped_cons hordinary, List.cons_append, readDocstring_cons (ordinary_escaped hx hordinary), ih,
      Option.map_map]
    rfl

/-- **Escaped text is read as the text**, with a line feed behind it. -/
theorem reads_line (cs : List Char) : Reads (escape cs ++ ['\n']) (cs ++ ['\n']) := by
  intro rest
  rw [escape_eq_escaped, List.append_assoc, List.singleton_append, readDocstring_escaped (by decide),
    readDocstring_cons (ordinary_of_ne (by decide) (by decide)), Option.map_map]
  simp [Function.comp_def]

end AttributeRegistry.Codegen.Python
