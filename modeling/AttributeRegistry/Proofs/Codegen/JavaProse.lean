import AttributeRegistry.Proofs.Codegen.JavaComments

/-!
# Prose in a Java module

What becomes of prose in a comment loses nothing. Escaping is undone by reading the entities from the
left (`readEntities_escape`), and as escaped text holds no angle bracket, every tag in prose is one that
stands for a backquote (`readTags_prose`).

Main statement: in prose the tags enclose code one after the other, a backquote is left only behind the
last of them and at most once, and the text is read back but for the blanks around it
(`prose_lossless`).
-/

namespace AttributeRegistry.Codegen.Java

open Text

/-! ## Reading -/

/-- A text with the characters that its entities stand for. -/
def readEntities : List Char → List Char
  | '&' :: 'a' :: 'm' :: 'p' :: ';' :: cs => '&' :: readEntities cs
  | '&' :: 'l' :: 't' :: ';' :: cs => '<' :: readEntities cs
  | '&' :: 'g' :: 't' :: ';' :: cs => '>' :: readEntities cs
  | '&' :: '#' :: '9' :: '2' :: ';' :: cs => '\\' :: readEntities cs
  | '&' :: '#' :: '4' :: '7' :: ';' :: cs => '/' :: readEntities cs
  | c :: cs => c :: readEntities cs
  | [] => []

/-- A text with a backquote for each tag of code. -/
def readTags : List Char → List Char
  | '<' :: 'c' :: '>' :: cs => '\x60' :: readTags cs
  | '<' :: '/' :: 'c' :: '>' :: cs => '\x60' :: readTags cs
  | c :: cs => c :: readTags cs
  | [] => []

/-- What escaped text, or prose with its code in elements, was before. -/
def decoded (cs : List Char) : List Char :=
  readEntities (readTags cs)

variable {c : Char} {as bs cs : List Char}

theorem readEntities_cons (h : c ≠ '&') (cs : List Char) :
    readEntities (c :: cs) = c :: readEntities cs := by
  rw [readEntities] <;> rintro _ rfl <;> exact absurd rfl h

theorem readTags_cons (h : c ≠ '<') (cs : List Char) : readTags (c :: cs) = c :: readTags cs := by
  rw [readTags] <;> rintro _ rfl <;> exact absurd rfl h

theorem readTags_append (h : '<' ∉ as) (bs : List Char) : readTags (as ++ bs) = as ++ readTags bs := by
  induction as with
  | nil => rfl
  | cons a as ih =>
    rw [List.mem_cons, not_or] at h
    rw [List.cons_append, readTags_cons (Ne.symm h.1), ih h.2, List.cons_append]

theorem readTags_of_not_mem (h : '<' ∉ cs) : readTags cs = cs := by
  have happend := readTags_append h []
  rwa [List.append_nil, readTags, List.append_nil] at happend

/-! ## Escaped text -/

/-- The characters that are not written as they are. -/
def marks : List Char :=
  ['&', '<', '>', '\\']

theorem escapeChar_of_not_mem (h : c ∉ marks) : escapeChar c = [c] := by
  have hamp : c ≠ '&' := fun heq => h (heq ▸ by decide)
  have hlt : c ≠ '<' := fun heq => h (heq ▸ by decide)
  have hgt : c ≠ '>' := fun heq => h (heq ▸ by decide)
  have hbackslash : c ≠ '\\' := fun heq => h (heq ▸ by decide)
  rw [escapeChar, if_neg hamp, if_neg hlt, if_neg hgt, if_neg hbackslash]

/-- Escaping brings in no angle bracket and nothing that could end a comment. -/
theorem mem_escapeChar {d : Char} (h : d ∈ escapeChar c) : d ∉ "<>*/".toList ∨ d = c ∧ c ∉ marks := by
  have hmarks : ∀ c ∈ marks, (escapeChar c).all (· ∉ "<>*/".toList) = true := by
    simp only [marks, List.forall_mem_cons]
    exact ⟨rfl, rfl, rfl, rfl, nofun⟩
  by_cases hc : c ∈ marks
  · exact .inl (of_decide_eq_true (List.all_eq_true.mp (hmarks c hc) d h))
  · rw [escapeChar_of_not_mem hc, List.mem_singleton] at h
    exact .inr ⟨h, hc⟩

theorem escape_nil : escape [] = [] :=
  replaceAll_nil

theorem escape_cons (h : c ≠ '*') (cs : List Char) : escape (c :: cs) = escapeChar c ++ escape cs := by
  have hpass : ∀ as bs : List Char, '*' ∉ as → replaceAll '*' ['/'] "*&#47;".toList (as ++ bs) =
      as ++ replaceAll '*' ['/'] "*&#47;".toList bs := by
    intro as bs has
    induction as with
    | nil => rfl
    | cons a as ih =>
      rw [List.mem_cons, not_or] at has
      rw [List.cons_append, replaceAll_of_ne (Ne.symm has.1), ih has.2, List.cons_append]
  refine hpass (escapeChar c) (cs.flatMap escapeChar) fun hmem => ?_
  rcases mem_escapeChar hmem with hnot | ⟨heq, -⟩
  · exact hnot (by decide)
  · exact h heq.symm

/-- What would end a comment is exchanged. -/
theorem escape_end (cs : List Char) : escape ('*' :: '/' :: cs) = "*&#47;".toList ++ escape cs :=
  replaceAll_of_some rfl

/-- An asterisk without a slash behind it stays as it is. -/
theorem escape_asterisk (h : cs.head? ≠ some '/') : escape ('*' :: cs) = '*' :: escape cs := by
  have hnone : dropBeginning? ['/'] (cs.flatMap escapeChar) = none := by
    rw [Option.eq_none_iff_forall_ne_some]
    intro rest hdrop
    have hslash := eq_append_of_dropBeginning? hdrop
    cases cs with
    | nil => cases hslash
    | cons d cs =>
      have hmarks : ∀ d ∈ marks, (escapeChar d).head? = some '&' := by
        simp only [marks, List.forall_mem_cons]
        exact ⟨rfl, rfl, rfl, rfl, nofun⟩
      rw [List.flatMap_cons] at hslash
      by_cases hd : d ∈ marks
      · obtain ⟨name, hname⟩ := List.head?_eq_some_iff.mp (hmarks d hd)
        rw [hname] at hslash
        exact absurd (List.cons.inj hslash).1 (by decide)
      · rw [escapeChar_of_not_mem hd] at hslash
        exact h (congrArg some (List.cons.inj hslash).1)
  exact replaceAll_of_none hnone

theorem readEntities_escapeChar (c : Char) (rest : List Char) :
    readEntities (escapeChar c ++ rest) = c :: readEntities rest := by
  have hmarks : ∀ c ∈ marks, readEntities (escapeChar c ++ rest) = c :: readEntities rest := by
    rw [marks]
    simp only [List.forall_mem_cons]
    exact ⟨rfl, rfl, rfl, rfl, nofun⟩
  by_cases hc : c ∈ marks
  · exact hmarks c hc
  · rw [escapeChar_of_not_mem hc]
    exact readEntities_cons (fun heq => hc (by rw [heq]; decide)) rest

/-- **Escaped text is read back.** -/
theorem readEntities_escape : ∀ cs : List Char, readEntities (escape cs) = cs
  | [] => by rw [escape_nil, readEntities]
  | c :: cs => by
    by_cases hc : c = '*'
    · by_cases hslash : cs.head? = some '/'
      · obtain ⟨cs, rfl⟩ := List.head?_eq_some_iff.mp hslash
        rw [hc, escape_end]
        exact congrArg ('*' :: '/' :: ·) (readEntities_escape cs)
      · rw [hc, escape_asterisk hslash, readEntities_cons (by decide), readEntities_escape cs]
    · rw [escape_cons hc, readEntities_escapeChar, readEntities_escape cs]

/-- Escaped text holds no tags. -/
theorem bracket_not_mem_escape (cs : List Char) : '<' ∉ escape cs ∧ '>' ∉ escape cs := by
  have hbrackets : ∀ b ∈ ['<', '>'], b ∈ marks ∧ b ∈ "<>*/".toList ∧ b ∉ "*&#47;".toList := by
    simp only [List.forall_mem_cons]
    exact ⟨by decide, by decide, nofun⟩
  have hnot : ∀ b ∈ ['<', '>'], b ∉ escape cs := by
    intro b hb hmem
    obtain ⟨hmark, hbracket, hnew⟩ := hbrackets b hb
    rcases mem_replaceAll hmem with hmem | hmem
    · exact hnew hmem
    · obtain ⟨c, -, hc⟩ := List.mem_flatMap.mp hmem
      rcases mem_escapeChar hc with hnot | ⟨rfl, hnot⟩
      · exact hnot hbracket
      · exact hnot hmark
  exact ⟨hnot '<' (by decide), hnot '>' (by decide)⟩

/-! ## Prose -/

/-- A text without angle brackets and backquotes. -/
def Untagged (cs : List Char) : Prop :=
  '<' ∉ cs ∧ '>' ∉ cs ∧ '\x60' ∉ cs

/-- Prose with its code in elements, one behind the other and none in another, and at most one backquote
behind the last of them. -/
inductive Tagged : List Char → Prop
  | text {cs : List Char} (h : Untagged cs) : Tagged cs
  | backquote {as bs : List Char} (ha : Untagged as) (hb : Untagged bs) : Tagged (as ++ '\x60' :: bs)
  | code {as bs cs : List Char} (ha : Untagged as) (hb : Untagged bs) (hcs : Tagged cs) :
    Tagged (as ++ "<c>".toList ++ bs ++ "</c>".toList ++ cs)

theorem tagged_spans : ∀ (parts : List (List Char)) (as : List Char), Untagged as →
    (∀ part ∈ parts, Untagged part) → Tagged (as ++ spans true parts)
  | [], as, ha, _ => by
    rw [spans, List.append_nil]
    exact .text ha
  | [part], as, ha, h => .backquote ha (h part List.mem_cons_self)
  | part :: next :: parts, as, ha, h => by
    rw [List.forall_mem_cons, List.forall_mem_cons] at h
    have hrest := tagged_spans parts next h.2.1 h.2.2
    have hspans : as ++ spans true (part :: next :: parts) =
        as ++ "<c>".toList ++ part ++ "</c>".toList ++ (next ++ spans true parts) := by
      rw [spans, spans]
      simp
    rw [hspans]
    exact .code ha h.1 hrest

/-- Every tag between the parts is read as a backquote. -/
theorem readTags_spans {opening : Bool} {parts : List (List Char)} (h : ∀ part ∈ parts, '<' ∉ part) :
    readTags (spans opening parts) = parts.flatMap ('\x60' :: ·) := by
  induction parts generalizing opening with
  | nil => rw [spans]; rfl
  | cons part parts ih =>
    rw [List.forall_mem_cons] at h
    have hrest : ∀ o, readTags (part ++ spans o parts) = part ++ parts.flatMap ('\x60' :: ·) :=
      fun o => by rw [readTags_append h.1, ih h.2]
    cases opening with
    | false =>
      rw [spans, List.append_assoc]
      exact congrArg ('\x60' :: ·) (hrest true)
    | true =>
      cases parts with
      | nil =>
        rw [spans, readTags_cons (by decide), readTags_of_not_mem h.1]
        simp
      | cons next parts =>
        rw [spans, List.append_assoc]
        exact congrArg ('\x60' :: ·) (hrest false)

/-- The parts of escaped prose. -/
theorem untagged_of_mem_splitOn {part : List Char} (h : part ∈ splitOn '\x60' (escape cs)) :
    Untagged part := by
  have hbrackets := bracket_not_mem_escape cs
  have hsub := (infix_of_mem_splitOn h).subset
  exact ⟨fun hmem => hbrackets.1 (hsub hmem), fun hmem => hbrackets.2 (hsub hmem),
    sep_not_mem_of_mem_splitOn h⟩

/-- **Reading tags in prose gives the escaped text.** -/
theorem readTags_prose (cs : List Char) : readTags (prose cs) = escape (trim cs) := by
  have hparts : ∀ part ∈ splitOn '\x60' (escape (trim cs)), Untagged part :=
    fun _ => untagged_of_mem_splitOn
  have hjoin := joinWith_splitOn '\x60' (escape (trim cs))
  unfold prose
  split
  · next hnil => exact absurd hnil (splitOn_ne_nil _ _)
  · next part parts heq =>
    rw [heq, List.forall_mem_cons] at hparts
    rw [readTags_append hparts.1.1, readTags_spans fun p hp => (hparts.2 p hp).1, ← hjoin, heq,
      joinWith_cons]
    rfl

theorem tagged_prose (cs : List Char) : Tagged (prose cs) := by
  have hparts : ∀ part ∈ splitOn '\x60' (escape (trim cs)), Untagged part :=
    fun _ => untagged_of_mem_splitOn
  unfold prose
  split
  · exact .text ⟨nofun, nofun, nofun⟩
  · next part parts heq =>
    rw [heq, List.forall_mem_cons] at hparts
    exact tagged_spans parts part hparts.1 hparts.2

/-- **Prose is lossless.** Tags of code come in pairs that are neither nested nor left open, a backquote
stays only behind the last pair and at most once, and what was there is read back: of prose the text
without the blanks around it, of escaped text all of it. -/
theorem prose_lossless (text : List Char) :
    Tagged (prose text) ∧ decoded (prose text) = trim text ∧ decoded (escape text) = text := by
  refine ⟨tagged_prose text, ?_, ?_⟩
  · rw [decoded, readTags_prose, readEntities_escape]
  · rw [decoded, readTags_of_not_mem (bracket_not_mem_escape text).1, readEntities_escape]

end AttributeRegistry.Codegen.Java
