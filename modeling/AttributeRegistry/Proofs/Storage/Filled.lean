import AttributeRegistry.Proofs.Storage.FileTree

/-!
# Trees that are filled

Whatever is written into a tree, by making directories and by writing files, is put there step by
step: a directory where nothing is, and a file where no directory is (`Filled`). So directories stay
directories and files stay files, every path leads where it led before (`Filled.locate`), and only
the files that were put there hold something else (`Filled.node?`).
-/

namespace AttributeRegistry.FileTree

variable {t t' u : FileTree} {l l' : Location} {path : String} {new : Location → Prop}

/-! ## Step by step -/

/-- A tree comes from another by directories where nothing was, and by files at some locations, where
no directory was. -/
inductive Filled (new : Location → Prop) (t : FileTree) : FileTree → Prop
  | refl : Filled new t t
  | directory {t' : FileTree} {l : Location} (h : Filled new t t') (hnode : t'.node? l = none) :
      Filled new t (t'.insert l .directory)
  | file {t' : FileTree} {l : Location} {content : ByteArray} (h : Filled new t t')
      (hnode : t'.node? l ≠ some .directory) (hl : new l) :
      Filled new t (t'.insert l (.file content))

namespace Filled

theorem trans (h : Filled new t t') (h' : Filled new t' u) : Filled new t u := by
  induction h' with
  | refl => exact h
  | directory _ hnode ih => exact ih.directory hnode
  | file _ hnode hl ih => exact ih.file hnode hl

theorem workingDirectory (h : Filled new t t') : t'.workingDirectory = t.workingDirectory := by
  induction h with
  | refl => rfl
  | directory _ _ ih => exact ih
  | file _ _ _ ih => exact ih

theorem isDirectory (h : Filled new t t') (hnode : t.node? l = some .directory) :
    t'.node? l = some .directory := by
  induction h with
  | refl => exact hnode
  | @directory t' l' h hnone ih =>
    have hne : l ≠ l' := by
      rintro rfl
      rw [hnone] at ih
      cases ih
    rwa [node?_insert_of_ne hne]
  | file _ hno _ ih => rwa [node?_insert_eq_directory_iff hno]

/-- What was there is still there, but for the files that were put into the tree. -/
theorem node? {n : Node} (h : Filled new t t') (hl : ¬ new l) (hnode : t.node? l = some n) :
    t'.node? l = some n := by
  induction h with
  | refl => exact hnode
  | @directory t' l' h hnone ih =>
    have hne : l ≠ l' := by
      rintro rfl
      rw [hnone] at ih
      cases ih
    rwa [node?_insert_of_ne hne]
  | @file t' l' content h hno hnew ih =>
    have hne : l ≠ l' := by
      rintro rfl
      exact hl hnew
    rwa [node?_insert_of_ne hne]

theorem exists_file {content : ByteArray} (h : Filled new t t')
    (hnode : t.node? l = some (.file content)) : ∃ content', t'.node? l = some (.file content') := by
  induction h with
  | refl => exact ⟨content, hnode⟩
  | @directory t' l' h hnone ih =>
    obtain ⟨content', ih⟩ := ih
    have hne : l ≠ l' := by
      rintro rfl
      rw [hnone] at ih
      cases ih
    exact ⟨content', by rwa [node?_insert_of_ne hne]⟩
  | @file t' l' content' h hno hnew ih =>
    by_cases hl : l = l'
    · exact ⟨content', by rw [hl, node?_insert_self (ne_nil_of_node?_ne_directory hno)]⟩
    · rwa [node?_insert_of_ne hl]

end Filled

/-! ## Where paths lead -/

/-- A path leads through directories, so it leads the same way where these are directories too. -/
theorem follow_mono (h : ∀ l, t.node? l = some .directory → u.node? l = some .directory)
    {parts : List (List Char)} {start : Location} (hl : t.follow start parts = .ok l) :
    u.follow start parts = .ok l := by
  induction parts generalizing start with
  | nil => exact hl
  | cons part parts ih =>
    rw [follow] at hl ⊢
    cases hnode : t.node? start with
    | none =>
      rw [hnode] at hl
      cases hl
    | some n =>
      rw [hnode] at hl
      cases n with
      | file _ => cases hl
      | directory =>
        rw [h start hnode]
        dsimp only at hl ⊢
        split at hl
        · cases hl
        · next hlength =>
          rw [if_neg hlength]
          exact ih hl

theorem locate_mono (hstart : u.workingDirectory = t.workingDirectory)
    (h : ∀ l, t.node? l = some .directory → u.node? l = some .directory)
    (hl : t.locate path = .ok l) : u.locate path = .ok l := by
  unfold locate at hl ⊢
  rw [hstart]
  split at hl
  · cases hl
  · next hnull =>
    rw [if_neg hnull]
    split at hl
    · cases hl
    · next hlength =>
      rw [if_neg hlength]
      split at hl
      · cases hl
      · next hempty =>
        rw [if_neg hempty]
        exact follow_mono h hl

/-- **A path that led somewhere leads there still.** -/
theorem Filled.locate (h : Filled new t t') (hl : t.locate path = .ok l) : t'.locate path = .ok l :=
  locate_mono h.workingDirectory (fun _ => h.isDirectory) hl

/-! ## Directories -/

theorem makeDirectory_eq_ok (h : t.makeDirectory path = .ok t') :
    ∃ l, t.locate (withoutSlashes path) = .ok l ∧ t.node? l = none ∧ t' = t.insert l .directory := by
  unfold makeDirectory at h
  cases hl : t.locate (withoutSlashes path) with
  | error fault =>
    rw [hl] at h
    cases h
  | ok l =>
    rw [hl] at h
    simp only [Bind.bind, Except.bind] at h
    cases hnode : t.node? l with
    | some n =>
      rw [hnode] at h
      cases h
    | none =>
      rw [hnode] at h
      exact ⟨l, rfl, hnode, (Except.ok.inj h).symm⟩

theorem Filled.mono {new' : Location → Prop} (h : Filled new t t') (hnew : ∀ l, new l → new' l) :
    Filled new' t t' := by
  induction h with
  | refl => exact .refl
  | directory _ hnode ih => exact ih.directory hnode
  | file _ hnode hl ih => exact ih.file hnode (hnew _ hl)

end AttributeRegistry.FileTree
