import AttributeRegistry.Drift
import AttributeRegistry.Proofs.Diff.Replayed
import AttributeRegistry.Proofs.Validation.Accepted

/-!
# Patches in reports

The difference a report shows for a changed module is a patch with at least one hunk. It turns what was
written into the fresh module, and the fresh module into what was written, if and only if the changes at
its ends say where they stand (`changed_patch_iff`). Joining edits does not see to that: when a removal
and an insertion change places, each keeps the place it had in the other text
(`not_replayed_swapped`).
-/

namespace AttributeRegistry.DriftReport

open Codegen Diff

/-- **The difference shown for a module is a patch, which is correct if and only if it is anchored.** -/
theorem changed_patch_iff {s : Snapshot} {fresh : Artifacts} {a : Artifact} {old : String}
    (ha : a ∈ fresh.items) (hold : s.get? a.fileName = some old) (hne : old ≠ a.content)
    (hreturn : '\r' ∉ old.toList) (hreturn' : '\r' ∉ a.content.toList) :
    ∃ diff hs, ⟨a.target, a.fileName, .changed diff⟩ ∈ (compare s fresh).items ∧
      readPatch a.fileName diff = some hs ∧ hs ≠ [] ∧
      (applyPatch hs old = some a.content ∧ applyPatch (hs.map Hunk.swap) a.content = some old ↔
        Anchored old a.content) := by
  obtain ⟨hs, hread, hsome, hiff⟩ := readPatch_unified_iff a.fileName hreturn hreturn' hne
  refine ⟨unified a.fileName old a.content, hs, List.mem_map.mpr ⟨a, ha, ?_⟩, hread, hsome, hiff⟩
  rw [statusOf, hold]
  dsimp only
  rw [if_neg hne]

/-! ## The module of an empty registry -/

/-- A registry without attributes. -/
private def noHosts : Registry :=
  .empty (.release 1 0 0)

/-- A text by its lines. -/
private def textOf (lines : List String) : String :=
  String.ofList (Text.unlines (lines.map String.toList))

/-- The lines of the Java module of that registry. -/
private def emptyModule : List String :=
  ["// DO NOT EDIT, this is an auto-generated file", "// Registry version: 1.0.0", "",
    "package dev.jcosta.semconv;", "", "public final class Attributes \x7b",
    "    private Attributes() \x7b\x7d", "\x7d"]

/-- The module with another version, cut before the class. -/
private def olderModule : List String :=
  ["// DO NOT EDIT, this is an auto-generated file", "// Registry version: 0.9.0", "",
    "package dev.jcosta.semconv;"]

/-- The first lines of the module, two of them in the other order. -/
private def swappedModule : List String :=
  ["// Registry version: 1.0.0", "// DO NOT EDIT, this is an auto-generated file", ""]

private theorem exists_emptyModule : ∃ v, noHosts.validate [] false = .ok v ∧
    ∃ a ∈ (generate v [.java] .default).items,
      a.target = .java ∧ a.fileName = "Attributes.java" ∧ a.content = textOf emptyModule := by
  obtain ⟨v, hv⟩ := Registry.exists_validate_iff.mpr
    (show (noHosts.allFindings [] false).hasErrors = false by decide +kernel)
  refine ⟨v, hv, render v .default .java, List.mem_map_of_mem (by decide), rfl, rfl, ?_⟩
  obtain ⟨registry, warnings⟩ := v
  obtain rfl : registry = noHosts := Registry.registry_of_validate hv
  have hemit : Java.emit (docs ⟨noHosts, []⟩) (.release 1 0 0) Profiles.default.java =
      Text.unlines (emptyModule.map String.toList) := by
    decide +kernel
  exact congrArg String.ofList hemit

/-- Against a module that was cut the difference is replayed in both directions. -/
theorem changed_patch_cut : ∃ v, noHosts.validate [] false = .ok v ∧ ∃ diff hs,
    ⟨.java, "Attributes.java", .changed diff⟩ ∈ (compare
      ⟨[("Attributes.java", textOf olderModule)], none⟩ (generate v [.java] .default)).items ∧
    readPatch "Attributes.java" diff = some hs ∧
    applyPatch hs (textOf olderModule) = some (textOf emptyModule) ∧
    applyPatch (hs.map Hunk.swap) (textOf emptyModule) = some (textOf olderModule) := by
  obtain ⟨v, hv, a, ha, htarget, hname, hcontent⟩ := exists_emptyModule
  have hold : Snapshot.get? ⟨[("Attributes.java", textOf olderModule)], none⟩ a.fileName =
      some (textOf olderModule) := by
    rw [hname, Snapshot.get?, List.lookup_cons_self]
  have hne : textOf olderModule ≠ a.content := by
    rw [hcontent, textOf, textOf, Ne, String.ofList_inj]
    decide
  have hreturn : '\r' ∉ (textOf olderModule).toList := by
    rw [textOf, String.toList_ofList]
    decide
  have hreturn' : '\r' ∉ a.content.toList := by
    rw [hcontent, textOf, String.toList_ofList]
    decide
  obtain ⟨diff, hs, hmem, hread, -, hiff⟩ := changed_patch_iff ha hold hne hreturn hreturn'
  have hanchored : Anchored (textOf olderModule) a.content := by
    simp only [hcontent, textOf, Anchored, Sides.ofTexts, String.toList_ofList]
    decide
  have hreplayed := hiff.mpr hanchored
  rw [htarget, hname] at hmem
  rw [hname] at hread
  rw [hcontent] at hreplayed
  exact ⟨v, hv, diff, hs, hmem, hread, hreplayed⟩

/-- **There is a difference that is no correct patch.** Of the module that was written only the first
lines are left, two of them in the other order: the header of the only hunk says two lines where it has
three. -/
theorem not_replayed_swapped : ∃ v, noHosts.validate [] false = .ok v ∧
    '\r' ∉ (textOf swappedModule).toList ∧ '\r' ∉ (textOf emptyModule).toList ∧
    textOf swappedModule ≠ textOf emptyModule ∧ ∃ diff hs,
    ⟨.java, "Attributes.java", .changed diff⟩ ∈ (compare
      ⟨[("Attributes.java", textOf swappedModule)], none⟩ (generate v [.java] .default)).items ∧
    readPatch "Attributes.java" diff = some hs ∧ applyPatch hs (textOf swappedModule) = none := by
  obtain ⟨v, hv, a, ha, htarget, hname, hcontent⟩ := exists_emptyModule
  have hne : textOf swappedModule ≠ textOf emptyModule := by
    rw [textOf, textOf, Ne, String.ofList_inj]
    decide
  have hreturn : '\r' ∉ (textOf swappedModule).toList := by
    rw [textOf, String.toList_ofList]
    decide
  have hreturn' : '\r' ∉ (textOf emptyModule).toList := by
    rw [textOf, String.toList_ofList]
    decide
  refine ⟨v, hv, hreturn, hreturn', hne, _, _, List.mem_map.mpr ⟨a, ha, ?_⟩,
    readPatch_unified "Attributes.java" (readable_ofTexts hreturn hreturn')
      (hunks_ne_nil hreturn hreturn' hne)
      fun h hh => ((Sides.spaced_hunks _).exists_placed hh).1, ?_⟩
  · have hold : Snapshot.get? ⟨[("Attributes.java", textOf swappedModule)], none⟩ a.fileName =
        some (textOf swappedModule) := by
      rw [hname, Snapshot.get?, List.lookup_cons_self]
    rw [statusOf, hold]
    dsimp only
    rw [htarget, hname, hcontent, if_neg hne]
  · simp only [textOf, applyPatch, Sides.ofTexts, String.toList_ofList]
    decide

end AttributeRegistry.DriftReport
