import AttributeRegistry.Proofs.Text.Lines
import AttributeRegistry.Storage

/-!
# Files after writing

Writing a file puts its text at the location its path leads to, and leaves everything else as it was:
every path leads where it led before (`locate_insert`), and what is elsewhere stays
(`node?_insert_of_ne`).

Main statement: several files written one after the other read back as they were written iff those
that lead to one location hold one text (`read_writeAll_iff`).
-/

namespace AttributeRegistry.FileTree

variable {t t' : FileTree} {l l' : Location} {path text : String}

/-! ## Putting a file into a tree -/

/-- The root is a directory, so what is not is below it. -/
theorem ne_nil_of_node?_ne_directory (h : t.node? l ≠ some .directory) : l ≠ [] := by
  rintro rfl
  exact h rfl

theorem node?_insert_self (hl : l ≠ []) (n : Node) : (t.insert l n).node? l = some n := by
  unfold node? insert
  rw [if_neg hl, List.lookup_cons_self]

/-- Entries of another key do not show when a key is looked up. -/
theorem lookup_filter_ne {α β : Type} [BEq α] [LawfulBEq α] [DecidableEq α] {k k' : α} (h : k' ≠ k)
    (entries : List (α × β)) :
    (entries.filter fun e => e.1 ≠ k).lookup k' = entries.lookup k' := by
  induction entries with
  | nil => rfl
  | cons e entries ih =>
    obtain ⟨name, b⟩ := e
    by_cases hname : name = k
    · rw [List.filter_cons_of_neg (by simp [hname]), ih, List.lookup_cons, hname,
        beq_false_of_ne h]
    · rw [List.filter_cons_of_pos (by simp [hname]), List.lookup_cons, List.lookup_cons, ih]

theorem node?_insert_of_ne (h : l' ≠ l) (n : Node) : (t.insert l n).node? l' = t.node? l' := by
  unfold node? insert
  dsimp only
  rw [List.lookup_cons, beq_false_of_ne h, lookup_filter_ne h]

/-- A path leads through directories only, so a file does not change where it leads. -/
theorem follow_insert {content : ByteArray} (h : t.node? l ≠ some .directory)
    (parts : List (List Char)) (start : Location) :
    (t.insert l (.file content)).follow start parts = .ok l' ↔ t.follow start parts = .ok l' := by
  have hl : l ≠ [] := ne_nil_of_node?_ne_directory h
  induction parts generalizing start with
  | nil => rfl
  | cons part parts ih =>
    rw [follow, follow]
    by_cases hstart : start = l
    · -- a path that comes through `l` fails in both trees, on a file or on nothing
      rw [hstart, node?_insert_self hl]
      cases hnode : t.node? l with
      | none => simp
      | some n =>
        cases n with
        | directory => exact absurd hnode h
        | file _ => simp
    · rw [node?_insert_of_ne hstart]
      cases t.node? start with
      | none => simp
      | some n =>
        cases n with
        | file _ => simp
        | directory =>
          dsimp only
          split
          · simp
          · exact ih _

/-- **Every path leads where it led before a file was put into the tree.** -/
theorem locate_insert {content : ByteArray} (h : t.node? l ≠ some .directory) (path : String) :
    (t.insert l (.file content)).locate path = .ok l' ↔ t.locate path = .ok l' := by
  unfold locate
  split
  · rfl
  · split
    · rfl
    · split
      · rfl
      · exact follow_insert h _ _

/-- A path of a length a path may have leads where its parts lead. -/
theorem locate_eq_follow (hnull : '\x00' ∉ path.toList) (hlength : path.utf8ByteSize < 4096)
    (hne : path ≠ "") :
    t.locate path = t.follow (if path.startsWith "/" then [] else t.workingDirectory)
      (Text.splitOn '/' path.toList) := by
  have hcontains : path.contains '\x00' = false := by
    rw [String.contains_char_eq, decide_eq_false hnull]
  have hempty : path.isEmpty = false := by
    rw [Bool.eq_false_iff, Ne, String.isEmpty_iff]
    exact hne
  unfold locate
  rw [hcontains, hempty, if_neg Bool.false_ne_true, if_neg (by omega), if_neg Bool.false_ne_true]

/-! ## Names in a directory -/

/-- A name that stands for a file in a directory, and for no other place. -/
def PlainName (name : String) : Prop :=
  '/' ∉ name.toList ∧ name.toList ∉ [[], ['.'], ['.', '.']]

instance (name : String) : Decidable (PlainName name) :=
  inferInstanceAs (Decidable (_ ∧ _))

theorem step_of_plainName {name : String} (h : PlainName name) :
    step l name.toList = l ++ [name] := by
  obtain ⟨-, hspecial⟩ := h
  simp only [List.mem_cons, List.not_mem_nil, or_false, not_or] at hspecial
  obtain ⟨hnil, hhere, hup⟩ := hspecial
  unfold step
  rw [if_neg (by simp [hnil, hhere]), if_neg hup, String.ofList_toList]

theorem exists_step_of_follow {parts : List (List Char)} {part : List Char} {start : Location}
    (h : t.follow start (parts ++ [part]) = .ok l) : ∃ l', l = step l' part := by
  induction parts generalizing start with
  | nil =>
    rw [List.nil_append, follow] at h
    split at h
    · cases h
    · cases h
    · split at h
      · cases h
      · rw [follow] at h
        exact ⟨start, (Except.ok.inj h).symm⟩
  | cons p parts ih =>
    rw [List.cons_append, follow] at h
    split at h
    · cases h
    · cases h
    · split at h
      · cases h
      · exact ih h

theorem endsWith_slash_iff : path.endsWith "/" = true ↔ ∃ cs, path.toList = cs ++ ['/'] := by
  rw [String.endsWith, String.Slice.endsWith_string_iff, String.copy_toSlice]
  constructor
  · rintro ⟨cs, hcs⟩
    exact ⟨cs, hcs.symm⟩
  · rintro ⟨cs, hcs⟩
    exact ⟨cs, hcs.symm⟩

/-- The last part of a path into a directory is the name of the file. -/
theorem exists_splitOn_join (directory : String) {name : String} (h : PlainName name) :
    ∃ parts, Text.splitOn '/' (Path.join directory name).toList = parts ++ [name.toList] := by
  have hname : Text.splitOn '/' name.toList = [name.toList] :=
    Text.splitOn_eq_singleton h.1
  unfold Path.join
  split
  · exact ⟨[], hname⟩
  · split
    · next hend =>
      obtain ⟨cs, hcs⟩ := endsWith_slash_iff.mp hend
      refine ⟨Text.splitOn '/' cs, ?_⟩
      rw [String.toList_append, hcs, List.append_assoc, List.singleton_append,
        Text.splitOn_append_cons, hname]
    · refine ⟨Text.splitOn '/' directory.toList, ?_⟩
      rw [String.toList_append, String.toList_append, List.append_assoc,
        show "/".toList = ['/'] from rfl, List.singleton_append, Text.splitOn_append_cons, hname]

/-- **Different names in a directory lead to different places.** -/
theorem locate_join_ne {directory name name' : String} (h : PlainName name) (h' : PlainName name')
    (hne : name ≠ name') (hl : t.locate (Path.join directory name) = .ok l) :
    t.locate (Path.join directory name) ≠ t.locate (Path.join directory name') := by
  have hlast : ∀ {n : String}, PlainName n → t.locate (Path.join directory n) = .ok l →
      l.getLast? = some n := by
    intro n hn hl
    obtain ⟨parts, hparts⟩ := exists_splitOn_join directory hn
    unfold locate at hl
    rw [hparts] at hl
    split at hl
    · cases hl
    · split at hl
      · cases hl
      · split at hl
        · cases hl
        · obtain ⟨l', rfl⟩ := exists_step_of_follow hl
          rw [step_of_plainName hn, List.getLast?_concat]
  intro hsame
  have hlast' := hlast h' (hsame.symm.trans hl)
  rw [hlast h hl] at hlast'
  exact hne (Option.some.inj hlast')

/-! ## Writing -/

theorem withoutSlashes_eq (h : path.endsWith "/" = false) : withoutSlashes path = path := by
  have hlast : ∀ c cs, path.toList.reverse = c :: cs → c ≠ '/' := by
    rintro c cs hrev rfl
    have hend : path.endsWith "/" = true := by
      rw [endsWith_slash_iff]
      refine ⟨cs.reverse, ?_⟩
      rw [← List.reverse_reverse path.toList, hrev, List.reverse_cons]
    rw [h] at hend
    cases hend
  have hkept : (path.toList.reverse.dropWhile (· = '/')).reverse = path.toList := by
    cases hrev : path.toList.reverse with
    | nil => rw [List.reverse_eq_nil_iff.mp hrev]; rfl
    | cons c cs =>
      rw [List.dropWhile_cons_of_neg (by simpa using hlast c cs hrev), ← hrev, List.reverse_reverse]
  unfold withoutSlashes
  dsimp only
  rw [hkept, String.ofList_toList]
  split <;> rfl

/-- **What writing does**: it puts the text at the location of the path, where no directory may be. -/
theorem write_eq_ok_iff :
    t.write path text = .ok t' ↔
      path.endsWith "/" = false ∧ ∃ l, t.locate path = .ok l ∧ t.node? l ≠ some .directory ∧
        t' = t.insert l (.file text.toUTF8) := by
  unfold write writeBytes
  by_cases hslash : path.endsWith "/" = true
  · rw [hslash]
    cases t.locate (withoutSlashes path) <;> simp [Bind.bind, Except.bind, throw, throwThe,
      MonadExceptOf.throw]
  · rw [Bool.not_eq_true] at hslash
    rw [withoutSlashes_eq hslash, hslash]
    cases hl : t.locate path with
    | error fault => simp [Bind.bind, Except.bind]
    | ok l =>
      simp only [Bind.bind, Except.bind, Except.ok.injEq, exists_eq_left', true_and,
        Bool.false_eq_true, if_false, pure, Except.pure]
      cases hnode : t.node? l with
      | none => simp [eq_comm]
      | some n =>
        cases n with
        | directory => simp [throw, throwThe, MonadExceptOf.throw]
        | file _ => simp [eq_comm]

/-! ## Reading -/

theorem fromUTF8?_toUTF8 (text : String) : String.fromUTF8? text.toUTF8 = some text := by
  unfold String.fromUTF8?
  split
  · rfl
  · next h => exact absurd text.isValidUTF8 h

/-- To a reader, paths that lead to one place are one. -/
theorem read_congr {path' : String} (h : t.locate path = t.locate path') :
    t.read path = t.read path' := by
  unfold read readBytes find
  rw [h]

theorem read_eq_of_locate (hl : t.locate path = .ok l)
    (hnode : t.node? l = some (.file text.toUTF8)) : t.read path = .ok text := by
  have hfind : t.find path = .ok (.file text.toUTF8) := by
    unfold find
    rw [hl]
    simp only [Bind.bind, Except.bind]
    rw [hnode]
    rfl
  have hbytes : t.readBytes path = .ok text.toUTF8 := by
    unfold readBytes
    rw [hfind]
    rfl
  unfold read
  rw [hbytes]
  simp only [Bind.bind, Except.bind, fromUTF8?_toUTF8]
  rfl

/-! ## Writing several files -/

variable {files : List (String × String)} {written : List String}

theorem writeAll_cons_eq_ok (h : t.writeAll ((path, text) :: files) = (t', .ok written)) :
    ∃ l rest, t.locate path = .ok l ∧ t.node? l ≠ some .directory ∧
      (t.insert l (.file text.toUTF8)).writeAll files = (t', .ok rest) := by
  unfold writeAll at h
  cases hwrite : t.write path text with
  | error fault =>
    rw [hwrite] at h
    exact absurd (congrArg Prod.snd h) (by simp)
  | ok t₁ =>
    obtain ⟨-, l, hl, hnode, rfl⟩ := write_eq_ok_iff.mp hwrite
    rw [hwrite] at h
    rcases hrest : (t.insert l (.file text.toUTF8)).writeAll files with ⟨t₂, outcome⟩
    dsimp only at h
    rw [hrest] at h
    obtain ⟨rfl, houtcome⟩ := Prod.mk.inj h
    cases outcome with
    | error e => exact absurd houtcome (by simp [Except.map])
    | ok rest => exact ⟨l, rest, hl, hnode, hrest⟩

/-- Putting a file into a tree makes no directory, and takes none away. -/
theorem node?_insert_eq_directory_iff {content : ByteArray} (h : t.node? l ≠ some .directory) :
    (t.insert l (.file content)).node? l' = some .directory ↔ t.node? l' = some .directory := by
  by_cases hsame : l' = l
  · rw [hsame, node?_insert_self (ne_nil_of_node?_ne_directory h)]
    simp [h]
  · rw [node?_insert_of_ne hsame]

/-- **Files are written if every path leads to where no directory is.** -/
theorem exists_writeAll
    (h : ∀ f ∈ files, f.1.endsWith "/" = false ∧
      ∃ l, t.locate f.1 = .ok l ∧ t.node? l ≠ some .directory) :
    ∃ t' written, t.writeAll files = (t', .ok written) := by
  induction files generalizing t with
  | nil => exact ⟨t, [], rfl⟩
  | cons f files ih =>
    rw [List.forall_mem_cons] at h
    obtain ⟨⟨hslash, l, hl, hnode⟩, h⟩ := h
    have hwrite : t.write f.1 f.2 = .ok (t.insert l (.file f.2.toUTF8)) :=
      write_eq_ok_iff.mpr ⟨hslash, l, hl, hnode, rfl⟩
    obtain ⟨t', written, hrest⟩ : ∃ t' written,
        (t.insert l (.file f.2.toUTF8)).writeAll files = (t', .ok written) := by
      refine ih fun g hg => ?_
      obtain ⟨hslash', l', hl', hnode'⟩ := h g hg
      refine ⟨hslash', l', (locate_insert hnode g.1).mpr hl', ?_⟩
      rw [Ne, node?_insert_eq_directory_iff hnode]
      exact hnode'
    refine ⟨t', f.1 :: written, ?_⟩
    rw [writeAll, hwrite]
    dsimp only
    rw [hrest]
    rfl

theorem locate_writeAll (h : t.writeAll files = (t', .ok written)) (path : String) :
    t'.locate path = .ok l ↔ t.locate path = .ok l := by
  induction files generalizing t written with
  | nil =>
    cases h
    rfl
  | cons f files ih =>
    obtain ⟨l₁, rest, -, hnode, hrest⟩ := writeAll_cons_eq_ok h
    rw [ih hrest, locate_insert hnode]

/-- Every file that was written leads somewhere. -/
theorem exists_locate_of_writeAll (h : t.writeAll files = (t', .ok written)) :
    ∀ f ∈ files, ∃ l, t'.locate f.1 = .ok l := by
  induction files generalizing t written with
  | nil => simp
  | cons f files ih =>
    obtain ⟨l, rest, hl, hnode, hrest⟩ := writeAll_cons_eq_ok h
    rw [List.forall_mem_cons]
    exact ⟨⟨l, (locate_writeAll h f.1).mpr hl⟩, ih hrest⟩

/-- What no file leads to stays as it was. -/
theorem node?_writeAll (h : t.writeAll files = (t', .ok written))
    (hne : ∀ f ∈ files, t'.locate f.1 ≠ .ok l) : t'.node? l = t.node? l := by
  induction files generalizing t written with
  | nil =>
    cases h
    rfl
  | cons f files ih =>
    obtain ⟨l₁, rest, hl, hnode, hrest⟩ := writeAll_cons_eq_ok h
    rw [List.forall_mem_cons] at hne
    have hl₁ : l ≠ l₁ := by
      rintro rfl
      exact hne.1 ((locate_writeAll h f.1).mpr hl)
    rw [ih hrest hne.2, node?_insert_of_ne hl₁]

/-- The file that is written last reads back. -/
theorem read_writeAll_last {f : String × String}
    (h : t.writeAll (files ++ [f]) = (t', .ok written)) : t'.read f.1 = .ok f.2 := by
  induction files generalizing t written with
  | nil =>
    obtain ⟨l, rest, hl, hnode, hrest⟩ := writeAll_cons_eq_ok h
    cases hrest
    have hroot : l ≠ [] := ne_nil_of_node?_ne_directory hnode
    exact read_eq_of_locate ((locate_insert hnode f.1).mpr hl) (node?_insert_self hroot _)
  | cons g files ih =>
    obtain ⟨l, rest, -, -, hrest⟩ := writeAll_cons_eq_ok h
    exact ih hrest

/-- Where a text was, there is a text still, since nothing but texts is written. -/
theorem exists_text_writeAll (h : t.writeAll files = (t', .ok written))
    (hnode : t.node? l = some (.file text.toUTF8)) :
    ∃ text' : String, t'.node? l = some (.file text'.toUTF8) := by
  induction files generalizing t written text with
  | nil =>
    cases h
    exact ⟨text, hnode⟩
  | cons f files ih =>
    obtain ⟨l₁, rest, -, hno, hrest⟩ := writeAll_cons_eq_ok h
    by_cases hsame : l = l₁
    · have hput : (t.insert l₁ (.file f.2.toUTF8)).node? l = some (.file f.2.toUTF8) := by
        rw [hsame, node?_insert_self (ne_nil_of_node?_ne_directory hno)]
      exact ih hrest hput
    · exact ih hrest ((node?_insert_of_ne hsame _).trans hnode)

/-- **Every file that was written can be read**, if not as it was written. -/
theorem exists_read_writeAll (h : t.writeAll files = (t', .ok written)) :
    ∀ f ∈ files, ∃ text, t'.read f.1 = .ok text := by
  induction files generalizing t written with
  | nil => simp
  | cons f files ih =>
    obtain ⟨l, rest, hl, hnode, hrest⟩ := writeAll_cons_eq_ok h
    rw [List.forall_mem_cons]
    refine ⟨?_, ih hrest⟩
    have hroot : l ≠ [] := ne_nil_of_node?_ne_directory hnode
    obtain ⟨text, htext⟩ := exists_text_writeAll hrest (node?_insert_self hroot _)
    exact ⟨text, read_eq_of_locate ((locate_writeAll h f.1).mpr hl) htext⟩

/-- **Files written one after the other read back iff those that lead to one place hold one text.** -/
theorem read_writeAll_iff (h : t.writeAll files = (t', .ok written)) :
    (∀ f ∈ files, t'.read f.1 = .ok f.2) ↔
      files.Pairwise fun f g => t'.locate f.1 = t'.locate g.1 → f.2 = g.2 := by
  induction files generalizing t written with
  | nil => simp
  | cons f files ih =>
    obtain ⟨l, rest, hl, hnode, hrest⟩ := writeAll_cons_eq_ok h
    have hroot : l ≠ [] := ne_nil_of_node?_ne_directory hnode
    have hl' : t'.locate f.1 = .ok l := (locate_writeAll h f.1).mpr hl
    rw [List.forall_mem_cons, List.pairwise_cons, ih hrest]
    refine and_congr_left fun hpairwise => ?_
    have hreads := (ih hrest).mpr hpairwise
    constructor
    · intro hread g hg hsame
      have htexts := read_congr hsame
      rw [hread, hreads g hg] at htexts
      exact Except.ok.inj htexts
    · intro hsame
      by_cases hagain : ∃ g ∈ files, t'.locate g.1 = .ok l
      · -- `f` is overwritten, by a file of the same text
        obtain ⟨g, hg, hgl⟩ := hagain
        have hplace : t'.locate f.1 = t'.locate g.1 := hl'.trans hgl.symm
        rw [read_congr hplace, hreads g hg, hsame g hg hplace]
      · -- no later file leads to where `f` was put
        refine read_eq_of_locate hl' ?_
        have hne : ∀ g ∈ files, t'.locate g.1 ≠ .ok l := fun g hg hgl => hagain ⟨g, hg, hgl⟩
        rw [node?_writeAll hrest hne, node?_insert_self hroot]

end AttributeRegistry.FileTree
