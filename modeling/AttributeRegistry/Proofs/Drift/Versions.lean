import AttributeRegistry.Proofs.Storage.Written
import AttributeRegistry.Proofs.Validation.Accepted
import AttributeRegistry.Proofs.Version.Reading
import Mathlib.Data.List.Dedup

/-!
# Versions in modules

The second line of every module is a comment with the version of the registry. A version is read back
from its text, so modules of registries with different versions have different texts, whatever else
is in the registries (`version_eq_of_content_eq`).

Main statement: against the files of a run for another version every module is reported as changed
(`version_change_reported`).
-/

namespace AttributeRegistry

open Codegen Text

theorem Version.text_injective {v w : Version} (h : v.text = w.text) : v = w := by
  have hparse := parse_text v
  rw [h, parse_text w] at hparse
  exact (Except.ok.inj hparse).symm

/-! ## The line with the version -/

namespace Codegen

/-- What a comment line of a module begins with. -/
def commentMark : Target → String
  | .python => "# "
  | _ => "// "

/-- Every module begins with the two lines of the header. -/
theorem exists_content_eq (v : ValidRegistry) (p : Profiles) (t : Target) :
    ∃ more, (render v p t).content.toList =
      unlines ((commentMark t ++ header).toList ::
        (commentMark t ++ versionLine v.registry.version).toList :: more) := by
  unfold render
  dsimp only
  rw [String.toList_ofList]
  cases t <;> exact ⟨_, rfl⟩

/-- The second line of a module. -/
theorem second_line (v : ValidRegistry) (p : Profiles) (t : Target) :
    (splitOn '\n' (render v p t).content.toList)[1]? =
      some (commentMark t ++ versionLine v.registry.version).toList := by
  have hheader : Plain (commentMark t ++ header).toList := by
    cases t <;> decide
  have hversion : Plain (commentMark t ++ versionLine v.registry.version).toList := by
    unfold versionLine
    simp only [String.toList_append, plain_append]
    exact ⟨by cases t <;> decide, by decide, plain_versionText _⟩
  obtain ⟨more, hcontent⟩ := exists_content_eq v p t
  rw [hcontent, splitOn_unlines, List.flatMap_cons, List.flatMap_cons,
    splitOn_eq_singleton hheader.not_mem_newline, splitOn_eq_singleton hversion.not_mem_newline]
  rfl

/-- **The text of a module determines the version of its registry.** -/
theorem version_eq_of_content_eq {v w : ValidRegistry} {p q : Profiles} {t : Target}
    (h : (render v p t).content = (render w q t).content) :
    v.registry.version = w.registry.version := by
  have hline := second_line v p t
  rw [h, second_line w q t, Option.some.injEq, String.toList_inj] at hline
  exact (Version.text_injective ((String.append_right_inj _).mp
    ((String.append_right_inj _).mp hline))).symm

end Codegen

/-! ## The files of another run -/

namespace Snapshot

/-- A snapshot has every module of a run under its name, and the manifest. -/
structure Has (s : Snapshot) (a : Artifacts) : Prop where
  files : ∀ i ∈ a.items, s.get? i.fileName = some i.content
  manifest : s.manifest = some a.manifest

/-- Files that are put in one after the other are there if their names differ. -/
theorem get?_insertAll {items : List Artifact} (hnames : (items.map Artifact.fileName).Nodup)
    (s : Snapshot) {i : Artifact} (hi : i ∈ items) :
    (items.foldl (fun s i => s.insert i.fileName i.content) s).get? i.fileName = some i.content := by
  have hkept : ∀ (items : List Artifact) (s : Snapshot) (name : String),
      name ∉ items.map Artifact.fileName →
        (items.foldl (fun s i => s.insert i.fileName i.content) s).get? name = s.get? name := by
    intro items
    induction items with
    | nil => intros; rfl
    | cons j items ih =>
      intro s name hname
      rw [List.map_cons, List.mem_cons, not_or] at hname
      rw [List.foldl_cons, ih _ _ hname.2, get?_insert, if_neg hname.1]
  induction items generalizing s with
  | nil => cases hi
  | cons j items ih =>
    rw [List.map_cons, List.nodup_cons] at hnames
    rw [List.foldl_cons]
    rcases List.mem_cons.mp hi with rfl | hi
    · rw [hkept _ _ _ hnames.1, get?_insert, if_pos rfl]
    · exact ih hnames.2 _ hi

theorem manifest_insertAll (items : List Artifact) (s : Snapshot) :
    (items.foldl (fun s i => s.insert i.fileName i.content) s).manifest = s.manifest := by
  induction items generalizing s with
  | nil => rfl
  | cons i items ih => exact ih _

/-- **A run whose files have different names is all there.** -/
theorem has_ofArtifacts {a : Artifacts} (hnames : (a.items.map Artifact.fileName).Nodup) :
    (ofArtifacts a).Has a :=
  ⟨fun _ hi => get?_insertAll hnames _ hi, manifest_insertAll _ _⟩

end Snapshot

namespace DriftReport

variable {v w : ValidRegistry} {targets : List Target} {p : Profiles} {s : Snapshot}

theorem exists_status_changed (hversion : v.registry.version ≠ w.registry.version)
    (hs : s.Has (generate v targets p)) {i : DriftItem}
    (hi : i ∈ (compare s (generate w targets p)).items) : ∃ diff, i.status = .changed diff := by
  obtain ⟨fresh, hfresh, rfl⟩ := List.mem_map.mp hi
  obtain ⟨t, ht, rfl⟩ := List.mem_map.mp hfresh
  have hold : s.get? (p.fileName t) = some (render v p t).content :=
    hs.files _ (List.mem_map_of_mem ht)
  have hne : (render v p t).content ≠ (render w p t).content :=
    fun heq => hversion (version_eq_of_content_eq heq)
  refine ⟨Diff.unified (p.fileName t) (render v p t).content (render w p t).content, ?_⟩
  show statusOf s (render w p t) = _
  have hname : (render w p t).fileName = p.fileName t := rfl
  rw [statusOf, hname, hold]
  exact if_neg hne

/-- As many modules are reported as there are targets. -/
theorem length_items (s : Snapshot) (w : ValidRegistry) (targets : List Target) (p : Profiles) :
    (compare s (generate w targets p)).items.length = targets.dedup.length := by
  have hperm : (Target.all.filter targets.contains).Perm targets.dedup := by
    refine (List.perm_ext_iff_of_nodup (List.Nodup.filter _ (by decide)) targets.nodup_dedup).mpr ?_
    intro t
    have hall : t ∈ Target.all := by cases t <;> decide
    simp [hall]
  rw [compare, generate, List.length_map, List.length_map, hperm.length_eq]

/-- **A change of the version never goes unnoticed.** Against the files of a run for another version
the version is reported as changed and so is every module, and a strict check fails with as many
modules as there are targets, if there are any. -/
theorem version_change_reported (hversion : v.registry.version ≠ w.registry.version)
    (hnames : ∀ t ∈ targets, ∀ u ∈ targets, p.fileName t = p.fileName u → t = u) :
    (Snapshot.ofArtifacts (generate v targets p)).Has (generate v targets p) ∧
      ∀ s : Snapshot, s.Has (generate v targets p) →
        (compare s (generate w targets p)).versionChanged = true ∧
        (∀ i ∈ (compare s (generate w targets p)).items, ∃ diff, i.status = .changed diff) ∧
        (targets ≠ [] →
          verify s (generate w targets p) true = .error (.drift targets.dedup.length)) := by
  refine ⟨Snapshot.has_ofArtifacts ?_, fun s hs => ⟨?_, fun i => exists_status_changed hversion hs, ?_⟩⟩
  · have hfiles : (Target.all.filter targets.contains).Pairwise
        fun t u => p.fileName t ≠ p.fileName u := by
      refine (List.Nodup.filter _ (by decide : Target.all.Nodup)).imp_of_mem ?_
      intro t u ht hu hne heq
      exact hne (hnames t (by simpa using (List.mem_filter.mp ht).2) u
        (by simpa using (List.mem_filter.mp hu).2) heq)
    rw [generate, List.map_map]
    exact List.pairwise_map.mpr hfiles
  · unfold versionChanged compare
    dsimp only
    rw [hs.manifest]
    exact decide_eq_true hversion
  · intro hne
    have hdrift : ∀ i ∈ (compare s (generate w targets p)).items, i.isDrift = true := by
      intro i hi
      obtain ⟨diff, hdiff⟩ := exists_status_changed hversion hs hi
      rw [DriftItem.isDrift, hdiff]
      rfl
    have hcount : (compare s (generate w targets p)).count = targets.dedup.length := by
      rw [count, drifted, List.filter_eq_self.mpr hdrift, length_items]
    have hdetected : (compare s (generate w targets p)).detected = true := by
      obtain ⟨t, ht⟩ := List.exists_mem_of_ne_nil _ hne
      have hpos : 0 < (compare s (generate w targets p)).items.length := by
        rw [length_items]
        exact List.length_pos_of_mem (List.mem_dedup.mpr ht)
      obtain ⟨i, hi⟩ := List.exists_mem_of_length_pos hpos
      exact List.any_eq_true.mpr ⟨i, hi, hdrift i hi⟩
    unfold verify passes
    dsimp only
    rw [hdetected, hcount]
    rfl

/-- One attribute. -/
private def hostEntries : List Entry :=
  [⟨.new "host.id" (.primitive (.scalar .string)) "The host." [.text "a1"], []⟩]

/-- A registry with one attribute, in some version. -/
private def hosts (version : Version) : Registry :=
  { version, entries := hostEntries, ordered := by simp [hostEntries] }

/-- Version `1.0.0` with build metadata. -/
private def built : Version :=
  { Version.release 1 0 0 with build := [⟨['7'], by decide⟩] }

/-- Build metadata is enough: with two targets, one of them given twice, two modules have changed. -/
theorem version_change_reported_build : ∃ v w,
    (hosts (.release 1 0 0)).validate [] false = .ok v ∧ (hosts built).validate [] false = .ok w ∧
      verify (.ofArtifacts (generate v [.java, .rust, .java] .default))
        (generate w [.java, .rust, .java] .default) true = .error (.drift 2) := by
  obtain ⟨v, hv⟩ := Registry.exists_validate_iff.mpr
    (show ((hosts (.release 1 0 0)).allFindings [] false).hasErrors = false by decide +kernel)
  obtain ⟨w, hw⟩ := Registry.exists_validate_iff.mpr
    (show ((hosts built).allFindings [] false).hasErrors = false by decide +kernel)
  have hversion : v.registry.version ≠ w.registry.version := by
    rw [Registry.registry_of_validate hv, Registry.registry_of_validate hw]
    decide
  have hnames : ∀ t ∈ [Target.java, .rust, .java], ∀ u ∈ [Target.java, .rust, .java],
      Profiles.default.fileName t = Profiles.default.fileName u → t = u := by
    decide
  obtain ⟨hhas, hreport⟩ := version_change_reported hversion hnames
  exact ⟨v, w, hv, hw, (hreport _ hhas).2.2 (by simp)⟩

end DriftReport

end AttributeRegistry
