import AttributeRegistry.Proofs.Storage.Components
import AttributeRegistry.Proofs.Storage.Filled
import AttributeRegistry.Storage

/-!
# What writing touches

However it ends, writing a run into a directory touches little: it makes directories where nothing
was, at the directory's own place and at those of the directories around it, and it puts files where
the paths of the run's files lead (`touches_writeTo`). Everything else is as it was.
-/

namespace AttributeRegistry

open Codegen

namespace FileTree

variable {t t' u : FileTree} {l : Location} {path : String} {directories files : Location → Prop}

/-! ## Changes -/

/-- Between two trees nothing changes but for directories at some places, where nothing was, and files
at some others, where no directory was. -/
structure Touches (directories files : Location → Prop) (t t' : FileTree) : Prop where
  workingDirectory : t'.workingDirectory = t.workingDirectory
  node : ∀ l, t'.node? l = t.node? l ∨
    (directories l ∧ t.node? l = none ∧ t'.node? l = some .directory) ∨
    (files l ∧ t.node? l ≠ some .directory ∧ ∃ content, t'.node? l = some (.file content))

namespace Touches

theorem refl : Touches directories files t t :=
  ⟨rfl, fun _ => .inl rfl⟩

theorem directory (hl : directories l) (hnode : t.node? l = none) :
    Touches directories files t (t.insert l .directory) := by
  refine ⟨rfl, fun l' => ?_⟩
  by_cases hsame : l' = l
  · subst hsame
    have hne : l' ≠ [] := by
      rintro rfl
      cases hnode
    exact .inr (.inl ⟨hl, hnode, node?_insert_self hne _⟩)
  · exact .inl (node?_insert_of_ne hsame _)

theorem file {content : ByteArray} (hl : files l) (hnode : t.node? l ≠ some .directory) :
    Touches directories files t (t.insert l (.file content)) := by
  refine ⟨rfl, fun l' => ?_⟩
  by_cases hsame : l' = l
  · subst hsame
    exact .inr (.inr ⟨hl, hnode, content, node?_insert_self (ne_nil_of_node?_ne_directory hnode) _⟩)
  · exact .inl (node?_insert_of_ne hsame _)

theorem trans (h : Touches directories files t t') (h' : Touches directories files t' u) :
    Touches directories files t u := by
  refine ⟨h'.workingDirectory.trans h.workingDirectory, fun l => ?_⟩
  rcases h.node l with hsame | ⟨hl, hnone, hmade⟩ | ⟨hl, hno, content, hput⟩
  · have hnode := h'.node l
    rwa [hsame] at hnode
  · -- a directory that was made stays one
    rcases h'.node l with hsame' | ⟨-, hnone', -⟩ | ⟨-, hno', -⟩
    · exact .inr (.inl ⟨hl, hnone, hsame'.trans hmade⟩)
    · rw [hmade] at hnone'
      cases hnone'
    · exact absurd hmade hno'
  · -- a file that was put somewhere may be written over
    rcases h'.node l with hsame' | ⟨-, hnone', -⟩ | ⟨-, -, hput'⟩
    · exact .inr (.inr ⟨hl, hno, content, hsame'.trans hput⟩)
    · rw [hput] at hnone'
      cases hnone'
    · exact .inr (.inr ⟨hl, hno, hput'⟩)

theorem mono {directories' files' : Location → Prop} (h : Touches directories files t t')
    (hdirectories : ∀ l, directories l → directories' l) (hfiles : ∀ l, files l → files' l) :
    Touches directories' files' t t' := by
  refine ⟨h.workingDirectory, fun l => (h.node l).imp_right ?_⟩
  exact Or.imp (And.imp_left (hdirectories l)) (And.imp_left (hfiles l))

end Touches

/-! ## Directories -/

/-- The place a beginning of some components leads to. -/
def Around (start : Location) (cs : List Path.Component) (l : Location) : Prop :=
  ∃ beginning, beginning <+: cs ∧ l = beginning.foldl enter start

/-- The files after making directories, whether that failed or not. -/
def left : Except (FileFault × FileTree) FileTree → FileTree
  | .ok t => t
  | .error (_, t) => t

theorem touches_makeDirectory (h : t.makeDirectory path = .ok t') :
    Touches (Around t.workingDirectory (Path.components path)) files t t' := by
  obtain ⟨l, hl, hnode, rfl⟩ := makeDirectory_eq_ok h
  refine .directory ⟨_, List.prefix_rfl, ?_⟩ hnode
  rw [locate_eq_foldl hl, Path.components_withoutSlashes]

theorem touches_ensureDirectory (t : FileTree) (path : String) :
    Touches (Around t.workingDirectory (Path.components path)) files t (left (t.ensureDirectory path)) := by
  unfold ensureDirectory
  split
  · next hmake => exact touches_makeDirectory hmake
  · split <;> exact .refl

/-- A directory is made after those around it, as far as these could be made. -/
theorem touches_bind {x : Except (FileFault × FileTree) FileTree}
    {f : FileTree → Except (FileFault × FileTree) FileTree}
    (h : Touches directories files t (left x))
    (hf : ∀ u, u.workingDirectory = t.workingDirectory → Touches directories files u (left (f u))) :
    Touches directories files t (left (x >>= f)) := by
  cases x with
  | error e => exact h
  | ok u => exact h.trans (hf u h.workingDirectory)

theorem touches_makeAll {cs : List Path.Component} (hproper : Path.Proper cs.reverse) :
    Touches (Around t.workingDirectory cs.reverse) files t (left (t.makeAll cs)) := by
  induction cs with
  | nil => exact .refl
  | cons c around ih =>
    have haround : around.reverse <+: (c :: around).reverse := by
      rw [List.reverse_cons]
      exact List.prefix_append _ _
    have hensure : ∀ u : FileTree, u.workingDirectory = t.workingDirectory →
        Touches (Around t.workingDirectory (c :: around).reverse) files u
          (left (u.ensureDirectory (Path.ofComponents (c :: around).reverse))) := by
      intro u hstart
      have htouches : Touches _ files u _ :=
        touches_ensureDirectory u (Path.ofComponents (c :: around).reverse)
      rwa [Path.components_ofComponents hproper, hstart] at htouches
    rw [makeAll]
    split
    · refine touches_bind ((ih (hproper.beginning haround)).mono ?_ fun _ => id) hensure
      rintro l ⟨beginning, hbegins, hl⟩
      exact ⟨beginning, hbegins.trans haround, hl⟩
    · exact hensure t rfl

/-- **Making directories touches nothing but the places of the directory and of those around it.** -/
theorem touches_makeDirectories (t : FileTree) (path : String) :
    Touches (Around t.workingDirectory (Path.components path)) files t
      (left (t.makeDirectories path)) := by
  have hensure : ∀ u : FileTree, u.workingDirectory = t.workingDirectory →
      Touches (Around t.workingDirectory (Path.components path)) files u
        (left (u.ensureDirectory path)) := by
    intro u hstart
    have htouches : Touches _ files u _ := touches_ensureDirectory u path
    rwa [hstart] at htouches
  have hbegins : (Path.components path).reverse.tail.reverse <+: Path.components path := by
    rw [List.tail_reverse, List.reverse_reverse]
    exact List.dropLast_prefix _
  unfold makeDirectories
  split
  · exact .refl
  · split
    · have hproper := (Path.proper_components path).beginning hbegins
      refine touches_bind ((touches_makeAll hproper).mono ?_ fun _ => id) hensure
      rintro l ⟨beginning, hbegins', hl⟩
      exact ⟨beginning, hbegins'.trans hbegins, hl⟩
    · exact hensure t rfl

/-! ## Files -/

/-- The place a path leads to that is one of some paths. -/
def Leads (t : FileTree) (paths : List String) (l : Location) : Prop :=
  ∃ path ∈ paths, t.locate path = .ok l

/-- Writing files leaves every path where it led, whether it fails or not. -/
theorem locate_fst_writeAll (files : List (String × String)) (path : String) :
    (t.writeAll files).1.locate path = .ok l ↔ t.locate path = .ok l := by
  induction files generalizing t with
  | nil => rfl
  | cons f files ih =>
    rw [writeAll]
    split
    · rfl
    · next hwrite =>
      obtain ⟨-, l', -, hnode, rfl⟩ := write_eq_ok_iff.mp hwrite
      exact ih.trans (locate_insert hnode path)

/-- **Writing files touches nothing but the places their paths lead to.** -/
theorem touches_writeAll (files : List (String × String)) :
    Touches directories (t.Leads (files.map Prod.fst)) t (t.writeAll files).1 := by
  induction files generalizing t with
  | nil => exact .refl
  | cons f files ih =>
    rw [writeAll]
    split
    · exact .refl
    · next hwrite =>
      obtain ⟨-, l, hl, hnode, rfl⟩ := write_eq_ok_iff.mp hwrite
      have hfirst : Touches directories (t.Leads ((f :: files).map Prod.fst)) t
          (t.insert l (.file f.2.toUTF8)) :=
        .file ⟨f.1, List.mem_cons_self, hl⟩ hnode
      refine hfirst.trans (ih.mono (fun _ => id) ?_)
      rintro l' ⟨path, hpath, hl'⟩
      exact ⟨path, List.mem_cons_of_mem _ hpath, (locate_insert hnode path).mp hl'⟩

end FileTree

/-- **Writing a run touches nothing but the places of its directory, of the directories around it, and
of its files**, whether it fails or not. -/
theorem Codegen.Artifacts.touches_writeTo (a : Artifacts) (directory : String) (t : FileTree) :
    FileTree.Touches (FileTree.Around t.workingDirectory (Path.components directory))
      ((a.writeTo directory t).1.Leads ((a.files directory).map Prod.fst))
      t (a.writeTo directory t).1 := by
  have hmade : FileTree.Touches (FileTree.Around t.workingDirectory (Path.components directory))
      ((a.writeTo directory t).1.Leads ((a.files directory).map Prod.fst)) t
      (FileTree.left (t.makeDirectories directory)) :=
    FileTree.touches_makeDirectories t directory
  unfold writeTo at hmade ⊢
  cases hdirectory : t.makeDirectories directory with
  | error e =>
    rw [hdirectory] at hmade
    exact hmade
  | ok u =>
    rw [hdirectory] at hmade
    refine hmade.trans ((FileTree.touches_writeAll _).mono (fun _ => id) ?_)
    rintro l ⟨path, hpath, hl⟩
    exact ⟨path, hpath, (FileTree.locate_fst_writeAll _ path).mpr hl⟩

end AttributeRegistry
