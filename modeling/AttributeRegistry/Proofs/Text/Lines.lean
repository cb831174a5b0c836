import AttributeRegistry.Text.Blank
import AttributeRegistry.Text.Lines

/-!
# Cutting and joining

`splitOn` is the inverse of joining parts without the separator (`splitOn_joinWith`), and cutting goes
through a text piece by piece (`splitOn_append_cons`). So the lines of `unlines` are the lines of its
parts (`splitOn_unlines`).

`lines` drops carriage returns and a last empty line, but what it gives are lines too
(`newline_not_mem_of_mem_lines`).
-/

namespace AttributeRegistry.Text

variable {sep : Char}

theorem splitOn_cons_self (sep : Char) (cs : List Char) :
    splitOn sep (sep :: cs) = [] :: splitOn sep cs := by
  rw [splitOn, if_pos rfl]

/-- A text without the separator is one part. -/
theorem splitOn_eq_singleton {cs : List Char} (h : sep ∉ cs) : splitOn sep cs = [cs] := by
  induction cs with
  | nil => rfl
  | cons c cs ih =>
    rw [List.mem_cons, not_or] at h
    rw [splitOn, if_neg (Ne.symm h.1), ih h.2]

/-- A separator ends a part. -/
theorem splitOn_append_cons (as bs : List Char) :
    splitOn sep (as ++ sep :: bs) = splitOn sep as ++ splitOn sep bs := by
  induction as with
  | nil => exact splitOn_cons_self sep bs
  | cons a as ih =>
    rw [List.cons_append, splitOn, splitOn]
    split
    · rw [ih]
      rfl
    · rw [ih]
      obtain ⟨part, parts, hs⟩ := List.exists_cons_of_ne_nil (splitOn_ne_nil sep as)
      rw [hs]
      rfl

/-- **Parts without the separator are what joining them is cut into.** -/
theorem splitOn_joinWith {parts : List (List Char)} (hne : parts ≠ [])
    (h : ∀ part ∈ parts, sep ∉ part) : splitOn sep (joinWith [sep] parts) = parts := by
  induction parts with
  | nil => exact absurd rfl hne
  | cons part parts ih =>
    have hpart : splitOn sep part = [part] := splitOn_eq_singleton (h part List.mem_cons_self)
    cases parts with
    | nil => exact hpart
    | cons next parts =>
      rw [joinWith, List.append_assoc, List.singleton_append, splitOn_append_cons, hpart,
        ih (by simp) fun p hp => h p (List.mem_cons_of_mem _ hp)]
      rfl

/-- A text without the separator stays in front of the first part. -/
theorem splitOn_append_of_not_mem {as : List Char} (h : sep ∉ as) (bs : List Char) :
    ∃ part, splitOn sep (as ++ bs) = (as ++ part) :: (splitOn sep bs).tail := by
  induction as with
  | nil =>
    obtain ⟨part, parts, hs⟩ := List.exists_cons_of_ne_nil (splitOn_ne_nil sep bs)
    exact ⟨part, by rw [List.nil_append, List.nil_append, hs, List.tail_cons]⟩
  | cons a as ih =>
    rw [List.mem_cons, not_or] at h
    obtain ⟨part, hs⟩ := ih h.2
    exact ⟨part, by rw [List.cons_append, splitOn, if_neg (Ne.symm h.1), hs]; rfl⟩

/-- Texts on one line each are their own lines. -/
theorem flatMap_splitOn_of_not_mem {texts : List (List Char)} (h : ∀ text ∈ texts, sep ∉ text) :
    texts.flatMap (splitOn sep) = texts := by
  induction texts with
  | nil => rfl
  | cons text texts ih =>
    rw [List.flatMap_cons, splitOn_eq_singleton (h text List.mem_cons_self),
      ih fun t ht => h t (List.mem_cons_of_mem _ ht)]
    rfl

theorem mem_joinWith {parts : List (List Char)} {c : Char} (h : c ∈ joinWith [sep] parts) :
    c = sep ∨ ∃ part ∈ parts, c ∈ part := by
  induction parts with
  | nil => exact absurd h List.not_mem_nil
  | cons part parts ih =>
    cases parts with
    | nil => exact .inr ⟨part, List.mem_cons_self, h⟩
    | cons next parts =>
      rw [joinWith, List.mem_append, List.mem_append, List.mem_singleton] at h
      rcases h with (h | h) | h
      · exact .inr ⟨part, List.mem_cons_self, h⟩
      · exact .inl h
      · rcases ih h with h | ⟨p, hp, hc⟩
        · exact .inl h
        · exact .inr ⟨p, List.mem_cons_of_mem _ hp, hc⟩

/-- A text is cut into parts of it. -/
theorem infix_of_mem_splitOn {cs part : List Char} (h : part ∈ splitOn sep cs) : part <:+: cs := by
  induction cs generalizing part with
  | nil => exact List.mem_singleton.mp h ▸ List.infix_rfl
  | cons c cs ih =>
    rw [splitOn] at h
    split at h
    · rcases List.mem_cons.mp h with rfl | h
      · exact List.nil_infix
      · exact (ih h).trans (List.suffix_cons c cs).isInfix
    · split at h
      · next hnil => exact absurd hnil (splitOn_ne_nil sep cs)
      · next first parts hsplit =>
        rcases List.mem_cons.mp h with rfl | h
        · -- the first part begins where the text does
          have hjoin := joinWith_splitOn sep cs
          rw [hsplit] at hjoin
          have hprefix : first <+: cs := by
            rw [← hjoin]
            cases parts with
            | nil => exact List.prefix_rfl
            | cons next parts =>
              rw [joinWith, List.append_assoc]
              exact List.prefix_append _ _
          exact ((List.prefix_cons_inj c).mpr hprefix).isInfix
        · exact (ih (hsplit ▸ List.mem_cons_of_mem _ h)).trans (List.suffix_cons c cs).isInfix

/-- No part holds the separator. -/
theorem sep_not_mem_of_mem_splitOn {cs part : List Char} (h : part ∈ splitOn sep cs) : sep ∉ part := by
  induction cs generalizing part with
  | nil => rw [List.mem_singleton.mp h]; exact List.not_mem_nil
  | cons c cs ih =>
    rw [splitOn] at h
    split at h
    · rcases List.mem_cons.mp h with rfl | h
      · exact List.not_mem_nil
      · exact ih h
    · next hc =>
      split at h
      · next hnil => exact absurd hnil (splitOn_ne_nil sep cs)
      · next first parts hsplit =>
        rw [hsplit] at ih
        rcases List.mem_cons.mp h with rfl | h
        · rw [List.mem_cons, not_or]
          exact ⟨Ne.symm hc, ih List.mem_cons_self⟩
        · exact ih (List.mem_cons_of_mem _ h)

/-- Joining is what the library calls intercalating. -/
theorem joinWith_eq_intercalate (sep : List Char) (parts : List (List Char)) :
    joinWith sep parts = sep.intercalate parts := by
  induction parts with
  | nil => rfl
  | cons part parts ih =>
    cases parts with
    | nil => simp [joinWith, List.intercalate]
    | cons next parts =>
      rw [joinWith, ih]
      simp [List.intercalate]

/-- Joining puts the separator in front of every part but the first. -/
theorem joinWith_cons (sep part : List Char) (parts : List (List Char)) :
    joinWith sep (part :: parts) = part ++ parts.flatMap (sep ++ ·) := by
  induction parts generalizing part with
  | nil => rw [joinWith, List.flatMap_nil, List.append_nil]
  | cons next parts ih => rw [joinWith, ih, List.flatMap_cons, List.append_assoc, List.append_assoc]

theorem unlines_append (xs ys : List (List Char)) : unlines (xs ++ ys) = unlines xs ++ unlines ys :=
  List.flatMap_append

theorem unlines_cons (line : List Char) (lines : List (List Char)) :
    unlines (line :: lines) = line ++ '\n' :: unlines lines := by
  rw [unlines, List.flatMap_cons, List.append_assoc]
  rfl

theorem splitOn_unlines_append (texts : List (List Char)) (rest : List Char) :
    splitOn '\n' (unlines texts ++ rest) = texts.flatMap (splitOn '\n') ++ splitOn '\n' rest := by
  induction texts with
  | nil => rfl
  | cons text texts ih =>
    rw [unlines_cons, List.append_assoc, List.cons_append, splitOn_append_cons, ih, List.flatMap_cons,
      List.append_assoc]

/-- The lines of some texts with line feeds behind them are the lines of each of them. -/
theorem splitOn_unlines (texts : List (List Char)) :
    splitOn '\n' (unlines texts) = texts.flatMap (splitOn '\n') ++ [[]] := by
  rw [← List.append_nil (unlines texts), splitOn_unlines_append]
  rfl

/-! ## Lines -/

theorem newline_not_mem_breakLine (cs : List Char) : '\n' ∉ (breakLine cs).1 := by
  induction cs with
  | nil => exact List.not_mem_nil
  | cons c cs ih =>
    by_cases hc : c = '\n'
    · rw [hc]
      exact List.not_mem_nil
    · have hbreak : (breakLine (c :: cs)).1 = c :: (breakLine cs).1 := by
        rw [breakLine]
        exact fun h => hc h
      rw [hbreak, List.mem_cons, not_or]
      exact ⟨Ne.symm hc, ih⟩

theorem dropReturn_subset {line : List Char} : dropReturn line ⊆ line := by
  intro c hc
  unfold dropReturn at hc
  split at hc
  · next before hrev =>
    rw [← List.mem_reverse, hrev]
    exact List.mem_cons_of_mem _ (List.mem_reverse.mp hc)
  · exact hc

theorem trimEnd_subset {line : List Char} : trimEnd line ⊆ line := by
  intro c hc
  rw [trimEnd, dropEndWhile, List.mem_reverse] at hc
  exact List.mem_reverse.mp ((List.dropWhile_sublist _).mem hc)

/-- A line of a text holds no line feed. -/
theorem newline_not_mem_of_mem_lines {cs line : List Char} (h : line ∈ lines cs) : '\n' ∉ line := by
  -- the cases are those of `lines`: a line that ends, nothing left, a last line without an end
  induction cs using lines.induct with
  | case1 cs first rest hbreak ih =>
    have hno := newline_not_mem_breakLine cs
    unfold lines at h
    split at h
    · next heq =>
      rw [hbreak] at heq hno
      cases heq
      rcases List.mem_cons.mp h with rfl | h
      · exact fun hmem => hno (dropReturn_subset hmem)
      · exact ih h
    · next heq => rw [hbreak] at heq; cases heq
    · next heq => rw [hbreak] at heq; cases heq
  | case2 cs hbreak =>
    unfold lines at h
    split at h
    · next heq => rw [hbreak] at heq; cases heq
    · exact absurd h List.not_mem_nil
    · next hne heq => rw [hbreak] at heq; cases heq; exact absurd rfl hne
  | case3 cs first hne hbreak =>
    have hno := newline_not_mem_breakLine cs
    unfold lines at h
    split at h
    · next heq => rw [hbreak] at heq; cases heq
    · exact absurd h List.not_mem_nil
    · next heq =>
      rw [hbreak] at heq hno
      cases heq
      rw [List.mem_singleton.mp h]
      exact hno

/-! ## What a text begins with -/

/-- A text with a property ends where the property does. -/
theorem takeWhile_dropWhile_append {p : Char → Bool} {cs rest : List Char}
    (h : ∀ c ∈ cs, p c = true) (hrest : ∀ c ∈ rest.head?, p c = false) :
    (cs ++ rest).takeWhile p = cs ∧ (cs ++ rest).dropWhile p = rest := by
  have hnone : rest.takeWhile p = [] ∧ rest.dropWhile p = rest := by
    cases rest with
    | nil => exact ⟨rfl, rfl⟩
    | cons c rest => simp [hrest c rfl]
  rw [List.takeWhile_append_of_pos h, List.dropWhile_append_of_pos h, hnone.1, hnone.2,
    List.append_nil]
  exact ⟨rfl, rfl⟩

/-! ## Patterns -/

theorem eq_append_of_dropBeginning? {ps cs rest : List Char} (h : dropBeginning? ps cs = some rest) :
    cs = ps ++ rest := by
  induction ps generalizing cs with
  | nil =>
    rw [dropBeginning?, Option.some.injEq] at h
    exact h
  | cons p ps ih =>
    cases cs with
    | nil => cases h
    | cons c cs =>
      rw [dropBeginning?] at h
      split at h
      · next hpc => rw [ih h, hpc, List.cons_append]
      · cases h

@[simp] theorem dropBeginning?_append (ps cs : List Char) : dropBeginning? ps (ps ++ cs) = some cs := by
  induction ps with
  | nil => rfl
  | cons p ps ih => rw [List.cons_append, dropBeginning?, if_pos rfl, ih]

section ReplaceAll

variable {p c : Char} {ps new cs after : List Char}

theorem replaceAll_nil : replaceAll p ps new [] = [] := by
  rw [replaceAll]

theorem replaceAll_of_ne (h : c ≠ p) : replaceAll p ps new (c :: cs) = c :: replaceAll p ps new cs := by
  rw [replaceAll, if_neg h]

theorem replaceAll_of_some (h : dropBeginning? ps cs = some after) :
    replaceAll p ps new (p :: cs) = new ++ replaceAll p ps new after := by
  rw [replaceAll, if_pos rfl]
  split
  · next hsome => rw [h] at hsome; cases hsome; rfl
  · next hnone => rw [h] at hnone; cases hnone

theorem replaceAll_of_none (h : dropBeginning? ps cs = none) :
    replaceAll p ps new (p :: cs) = p :: replaceAll p ps new cs := by
  rw [replaceAll, if_pos rfl]
  split
  · next hsome => rw [h] at hsome; cases hsome
  · rfl

/-- Exchanging brings no characters in but those of the new text. -/
theorem mem_replaceAll (h : c ∈ replaceAll p ps new cs) : c ∈ new ∨ c ∈ cs := by
  induction cs using replaceAll.induct p ps with
  | case1 =>
    rw [replaceAll_nil] at h
    exact .inr h
  | case2 rest after hdrop ih =>
    rw [replaceAll_of_some hdrop] at h
    rcases List.mem_append.mp h with h | h
    · exact .inl h
    · refine (ih h).imp_right fun hmem => List.mem_cons_of_mem _ ?_
      rw [eq_append_of_dropBeginning? hdrop]
      exact List.mem_append_right _ hmem
  | case3 rest hdrop ih =>
    rw [replaceAll_of_none hdrop] at h
    rcases List.mem_cons.mp h with rfl | h
    · exact .inr List.mem_cons_self
    · exact (ih h).imp_right (List.mem_cons_of_mem _)
  | case4 d rest hd ih =>
    rw [replaceAll_of_ne hd] at h
    rcases List.mem_cons.mp h with rfl | h
    · exact .inr List.mem_cons_self
    · exact (ih h).imp_right (List.mem_cons_of_mem _)

end ReplaceAll

end AttributeRegistry.Text
