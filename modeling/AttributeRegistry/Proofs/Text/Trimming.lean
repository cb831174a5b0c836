import AttributeRegistry.Proofs.Text.Lines
import Mathlib.Data.List.DropRight

/-!
# Trimming and cutting

What trimming drops is blank (`exists_eq_append_trim`), and blanks around a text make no difference to
it (`trim_append_of_allBlank`). Trimmed line by line, a text is the same whether it is cut into lines
or at its line feeds, but for an empty line at the end (`exists_map_trim_splitOn`).
-/

namespace AttributeRegistry

namespace Text

variable {cs ws : List Char}

/-! ## Trimming -/

theorem trimEnd_append_of_allBlank (h : allBlank ws = true) (cs : List Char) :
    trimEnd (cs ++ ws) = trimEnd cs := by
  rw [trimEnd, dropEndWhile, List.reverse_append,
    List.dropWhile_append_of_pos fun c hc => List.all_eq_true.mp h c (List.mem_reverse.mp hc)]
  rfl

theorem trim_append_of_allBlank (h : allBlank ws = true) (cs : List Char) : trim (cs ++ ws) = trim cs := by
  rw [trim, trimStart, List.dropWhile_append]
  split
  · next hnil =>
    rw [List.isEmpty_iff] at hnil
    rw [List.dropWhile_eq_nil_iff.mpr (List.all_eq_true.mp h), trim, trimStart, hnil]
  · exact trimEnd_append_of_allBlank h _

theorem trim_append_left_of_allBlank (h : allBlank ws = true) (cs : List Char) :
    trim (ws ++ cs) = trim cs := by
  rw [trim, trimStart, List.dropWhile_append_of_pos (List.all_eq_true.mp h)]
  rfl

theorem allBlank_iff_trimEnd_eq_nil : allBlank cs ↔ trimEnd cs = [] := by
  rw [trimEnd, dropEndWhile, List.reverse_eq_nil_iff, List.dropWhile_eq_nil_iff, allBlank,
    List.all_eq_true]
  simp only [List.mem_reverse]

/-- A text is what trimming leaves of it with blanks at its end. -/
theorem exists_eq_trimEnd_append (cs : List Char) :
    ∃ ws, allBlank ws = true ∧ cs = trimEnd cs ++ ws :=
  ⟨cs.rtakeWhile isBlank, List.all_eq_true.mpr fun _ => List.mem_rtakeWhile_imp,
    (List.rdropWhile_append_rtakeWhile ..).symm⟩

/-- A text is what trimming leaves of it between blanks. -/
theorem exists_eq_append_trim (cs : List Char) :
    ∃ ws us, allBlank ws = true ∧ allBlank us = true ∧ cs = ws ++ (trim cs ++ us) := by
  obtain ⟨us, hus, hcs⟩ := exists_eq_trimEnd_append (trimStart cs)
  refine ⟨cs.takeWhile isBlank, us, List.all_takeWhile, hus, ?_⟩
  rw [trim, ← hcs]
  exact List.takeWhile_append_dropWhile.symm

theorem trim_trimEnd (cs : List Char) : trim (trimEnd cs) = trim cs := by
  obtain ⟨ws, hws, hcs⟩ := exists_eq_trimEnd_append cs
  conv_rhs => rw [hcs, trim_append_of_allBlank hws]

theorem trimEnd_trimEnd (cs : List Char) : trimEnd (trimEnd cs) = trimEnd cs :=
  List.rdropWhile_idempotent ..

theorem trimEnd_trim (cs : List Char) : trimEnd (trim cs) = trim cs :=
  trimEnd_trimEnd _

theorem allBlank_trim (cs : List Char) : allBlank (trim cs) = allBlank cs := by
  obtain ⟨ws, us, hws, hus, hcs⟩ := exists_eq_append_trim cs
  conv_rhs => rw [hcs, allBlank, List.all_append, List.all_append]
  rw [allBlank] at hws hus
  rw [hws, hus, Bool.true_and, Bool.and_true, allBlank]

/-- A line without blanks at its end is trimmed iff it does not begin with one. -/
theorem trim_eq_self_iff (h : trimEnd cs = cs) : trim cs = cs ↔ ∀ c ∈ cs.head?, isBlank c = false := by
  cases cs with
  | nil => exact ⟨fun _ => by simp, fun _ => rfl⟩
  | cons c cs =>
    by_cases hc : isBlank c = true
    · constructor
      · intro htrim
        obtain ⟨rest, hrest⟩ : ∃ rest, trimStart (c :: cs) = c :: rest := by
          have hprefix : trim (c :: cs) <+: trimStart (c :: cs) := List.rdropWhile_prefix ..
          rw [htrim] at hprefix
          obtain ⟨more, hmore⟩ := hprefix
          exact ⟨cs ++ more, hmore.symm⟩
        exact absurd (not_isBlank_of_trimStart_eq_cons hrest) (by simp [hc])
      · intro hhead
        exact absurd (hhead c rfl) (by simp [hc])
    · have hstart : trimStart (c :: cs) = c :: cs := List.dropWhile_cons_of_neg hc
      rw [trim, hstart]
      simp [h, hc]

/-! ## Cutting and trimming -/

/-- Where two texts meet, the last part of one goes on with the first part of the other. -/
theorem exists_splitOn_append (sep : Char) (as bs : List Char) : ∃ front last first back,
    splitOn sep as = front ++ [last] ∧ splitOn sep bs = first :: back ∧
      splitOn sep (as ++ bs) = front ++ (last ++ first) :: back := by
  induction as with
  | nil =>
    obtain ⟨first, back, hbs⟩ := List.exists_cons_of_ne_nil (splitOn_ne_nil sep bs)
    exact ⟨[], [], first, back, rfl, hbs, hbs⟩
  | cons a as ih =>
    obtain ⟨front, last, first, back, has, hbs, happend⟩ := ih
    rw [List.cons_append, splitOn, splitOn, has, happend]
    by_cases ha : a = sep
    · exact ⟨[] :: front, last, first, back, by simp [ha], hbs, by simp [ha]⟩
    · cases front with
      | nil => exact ⟨[], a :: last, first, back, by simp [ha], hbs, by simp [ha]⟩
      | cons part front => exact ⟨(a :: part) :: front, last, first, back, by simp [ha], hbs, by simp [ha]⟩

theorem allBlank_of_mem_splitOn {sep : Char} {part : List Char} (h : allBlank ws = true)
    (hpart : part ∈ splitOn sep ws) : allBlank part = true :=
  List.all_eq_true.mpr fun c hc => List.all_eq_true.mp h c ((infix_of_mem_splitOn hpart).subset hc)

/-- A text up to its first line feed is its first line. -/
theorem splitOn_eq_breakLine (cs : List Char) :
    splitOn '\n' cs = (breakLine cs).1 :: (breakLine cs).2.elim [] (splitOn '\n') := by
  induction cs with
  | nil => rfl
  | cons c cs ih =>
    by_cases hc : c = '\n'
    · rw [hc]
      exact splitOn_cons_self '\n' cs
    · have hbreak : breakLine (c :: cs) = (c :: (breakLine cs).1, (breakLine cs).2) := by
        rw [breakLine]
        exact fun h => hc h
      rw [splitOn, if_neg hc, ih, hbreak]

/-- A line is the same without the carriage return at its end, but for blanks there. -/
theorem exists_eq_dropReturn_append (line : List Char) :
    ∃ ws, allBlank ws = true ∧ line = dropReturn line ++ ws := by
  unfold dropReturn
  split
  · next before hrev =>
    refine ⟨['\r'], by decide, ?_⟩
    rw [← List.reverse_cons, ← hrev, List.reverse_reverse]
  · exact ⟨[], rfl, (List.append_nil line).symm⟩

theorem trim_dropReturn (line : List Char) : trim (dropReturn line) = trim line := by
  obtain ⟨ws, hws, hline⟩ := exists_eq_dropReturn_append line
  conv_rhs => rw [hline, trim_append_of_allBlank hws]

theorem trimEnd_dropReturn (line : List Char) : trimEnd (dropReturn line) = trimEnd line := by
  obtain ⟨ws, hws, hline⟩ := exists_eq_dropReturn_append line
  conv_rhs => rw [hline, trimEnd_append_of_allBlank hws]

theorem lines_of_breakLine_some {line rest : List Char} (h : breakLine cs = (line, some rest)) :
    lines cs = dropReturn line :: lines rest := by
  conv_lhs => unfold lines
  split
  · next heq => rw [h] at heq; cases heq; rfl
  · next heq => rw [h] at heq; cases heq
  · next heq => rw [h] at heq; cases heq

theorem lines_of_breakLine_none {line : List Char} (h : breakLine cs = (line, none)) :
    lines cs = if line = [] then [] else [line] := by
  unfold lines
  split
  · next heq => rw [h] at heq; cases heq
  · next heq => rw [h] at heq; cases heq; rfl
  · next hne heq => rw [h] at heq; cases heq; exact (if_neg fun hnil => hne hnil).symm

/-- Cut at its line feeds a text has the parts that are its lines, and perhaps an empty one at the end,
as far as a function does not tell a line from the same without its carriage return. -/
theorem exists_map_splitOn {f : List Char → List Char} (hf : ∀ line, f (dropReturn line) = f line)
    (cs : List Char) : ∃ last : List (List Char),
      (∀ line ∈ last, line = f []) ∧ (splitOn '\n' cs).map f = (lines cs).map f ++ last := by
  -- the cases are those of `lines`: a line that ends, nothing left, a last line without an end
  induction cs using lines.induct with
  | case1 cs line rest hbreak ih =>
    obtain ⟨last, hlast, hrest⟩ := ih
    refine ⟨last, hlast, ?_⟩
    rw [splitOn_eq_breakLine, hbreak, Option.elim_some, List.map_cons, hrest,
      lines_of_breakLine_some hbreak, List.map_cons, hf, List.cons_append]
  | case2 cs hbreak =>
    refine ⟨[f []], by simp, ?_⟩
    rw [splitOn_eq_breakLine, hbreak, lines_of_breakLine_none hbreak]
    rfl
  | case3 cs line hne hbreak =>
    refine ⟨[], by simp, ?_⟩
    rw [splitOn_eq_breakLine, hbreak, lines_of_breakLine_none hbreak, if_neg fun hnil => hne hnil]
    rfl

/-- The trimmed lines of a text are its trimmed parts, but for an empty one at the end. -/
theorem exists_map_trim_splitOn (cs : List Char) : ∃ last : List (List Char),
    (∀ line ∈ last, allBlank line = true) ∧
      (splitOn '\n' cs).map trim = (lines cs).map trim ++ last := by
  obtain ⟨last, hlast, hsplit⟩ := exists_map_splitOn trim_dropReturn cs
  exact ⟨last, fun line hline => by rw [hlast line hline]; rfl, hsplit⟩

/-- A text on one line has that line. -/
theorem lines_of_not_mem (hne : cs ≠ []) (h : '\n' ∉ cs) : lines cs = [cs] := by
  have hsplit := splitOn_eq_breakLine cs
  rw [splitOn_eq_singleton h, List.cons.injEq] at hsplit
  have hnone : (breakLine cs).2 = none := by
    cases hrest : (breakLine cs).2 with
    | none => rfl
    | some rest =>
      rw [hrest] at hsplit
      exact absurd hsplit.2.symm (splitOn_ne_nil '\n' rest)
  rw [lines_of_breakLine_none (Prod.ext hsplit.1.symm hnone), if_neg hne]

end Text

end AttributeRegistry
