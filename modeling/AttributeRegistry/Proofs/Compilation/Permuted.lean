import AttributeRegistry.Proofs.Compilation.Spread
import AttributeRegistry.Proofs.Resolution.Permuted

/-!
# The order of documents never shows

A report is sorted by subject, code and message only, and what ties in all three keeps the order it
was found in. That order is the same for every order of the documents (`ties_findings_perm`): findings
of one document tie with each other only, and merging sorts whatever it goes through.

Main statement: documents with different names may be given in any order, the result is the same, item
for item (`compile_perm`).
-/

namespace AttributeRegistry

open Ordered

instance : Std.TransCmp Finding.compare :=
  have h₁ := transCmp_comap Ord.compare Finding.subject
  have h₂ := transCmp_comap Ord.compare fun f : Finding => f.code.rank
  have h₃ := transCmp_comap Ord.compare Finding.message
  have h₂₃ := @transCmp_then _ _ _ h₂ h₃
  @transCmp_then _ _ _ h₁ h₂₃

theorem Finding.subject_eq_of_compare {x f : Finding} (h : Finding.compare x f = .eq) :
    f.subject = x.subject :=
  (Std.LawfulEqCmp.eq_of_compare (Ordering.then_eq_eq.mp h).1).symm

/-! ## Reports -/

/-- Turning warnings into errors changes no order. -/
theorem ties_promoteWarnings (x : Finding) (p : Report) :
    ties Finding.compare x (Report.promoteWarnings p) =
      Report.promoteWarnings (ties Finding.compare x p) := by
  unfold ties Report.promoteWarnings
  rw [List.filter_map]
  rfl

/-- The report on a registry shows of what was found before only how ties are ordered. -/
theorem allFindings_congr_prior (r : Registry) {p q : Report}
    (h : ∀ x, ties Finding.compare x p = ties Finding.compare x q) (strict : Bool) :
    r.allFindings p strict = r.allFindings q strict := by
  have hfound : ∀ x, ties Finding.compare x (p ++ r.check) = ties Finding.compare x (q ++ r.check) := by
    intro x
    rw [ties_append, ties_append, h]
  unfold Registry.allFindings Report.sort
  cases strict with
  | false => exact sort_congr hfound
  | true =>
    refine sort_congr fun x => ?_
    rw [if_pos rfl, if_pos rfl, ties_promoteWarnings, ties_promoteWarnings, hfound]

/-! ## Loading -/

/-- What is wrong with a source. -/
def Source.problems (s : Source) : Report :=
  match s.parse with
  | .ok _ => []
  | .error problems => problems

theorem findings_eq (ss : List Source) : (Loaded.ofSources ss).findings = ss.flatMap Source.problems :=
  rfl

theorem exists_problem_of_mem_groupsProblems {s : Source} {start : Nat} {gs : List Group} {f : Finding}
    (h : f ∈ s.groupsProblems start gs) : ∃ message context, f = s.problem message context := by
  induction gs generalizing start with
  | nil => exact absurd h List.not_mem_nil
  | cons g gs ih =>
    rw [Source.groupsProblems, Source.groupProblems, List.append_assoc, List.mem_append,
      List.mem_append] at h
    rcases h with h | h | h
    · split at h
      · exact ⟨_, _, List.mem_singleton.mp h⟩
      · exact absurd h List.not_mem_nil
    · obtain ⟨⟨a, index⟩, -, h⟩ := List.mem_flatMap.mp h
      dsimp only [Source.misplaced] at h
      split at h
      · exact absurd h List.not_mem_nil
      · exact ⟨_, _, List.mem_singleton.mp h⟩
    · exact ih h

/-- **What is wrong with a document are problems of the document.** -/
theorem Source.exists_problem_of_mem_problems {s : Source} {f : Finding} (h : f ∈ s.problems) :
    ∃ message context, f = s.problem message context := by
  unfold problems parse at h
  split at h
  · exact absurd h List.not_mem_nil
  · next problems hparse =>
    split at hparse
    · cases hparse
      exact ⟨_, _, List.mem_singleton.mp h⟩
    · next c =>
      dsimp only at hparse
      split at hparse
      · cases hparse
      · next hproblems _ =>
        cases hparse
        rcases List.mem_append.mp h with h | h
        · unfold versionOf at h
          split at h
          · exact absurd h List.not_mem_nil
          · split at h
            · exact absurd h List.not_mem_nil
            · exact ⟨_, _, List.mem_singleton.mp h⟩
        · exact exists_problem_of_mem_groupsProblems h

/-- Every problem of a document names the document. -/
theorem Source.subject_of_mem_problems {s : Source} {f : Finding} (h : f ∈ s.problems) :
    f.subject = s.name := by
  obtain ⟨message, context, rfl⟩ := exists_problem_of_mem_problems h
  rfl

/-- If of any two elements one adds nothing to a list, the elements may come in any order. -/
theorem flatMap_eq_of_perm {α β : Type} {f : α → List β} {as bs : List α} (h : as.Perm bs)
    (hone : as.Pairwise fun a b => f a = [] ∨ f b = []) : as.flatMap f = bs.flatMap f := by
  induction h with
  | nil => rfl
  | cons a _ ih =>
    rw [List.flatMap_cons, List.flatMap_cons, ih (List.pairwise_cons.mp hone).2]
  | swap a b l =>
    simp only [List.flatMap_cons]
    rcases (List.pairwise_cons.mp hone).1 a List.mem_cons_self with h | h
    · rw [h, List.nil_append, List.nil_append]
    · rw [h, List.nil_append, List.nil_append]
  | trans h _ ih ih' =>
    exact (ih hone).trans (ih' ((h.pairwise_iff fun hab => hab.symm).mp hone))

variable {ss ts : List Source}

/-- **Findings of documents with different names tie in one order.** -/
theorem ties_findings_perm (h : ss.Perm ts) (hnames : (ss.map Source.name).Nodup) (x : Finding) :
    ties Finding.compare x (Loaded.ofSources ss).findings =
      ties Finding.compare x (Loaded.ofSources ts).findings := by
  have hother : ∀ s : Source, s.name ≠ x.subject → ties Finding.compare x s.problems = [] := by
    intro s hs
    refine List.eq_nil_iff_forall_not_mem.mpr fun f hf => ?_
    obtain ⟨hf, heq⟩ := mem_ties.mp hf
    exact hs ((Source.subject_of_mem_problems hf).symm.trans (Finding.subject_eq_of_compare heq))
  rw [findings_eq, findings_eq, ties_flatMap, ties_flatMap]
  refine flatMap_eq_of_perm h ((List.pairwise_map.mp hnames).imp fun {s t} hne => ?_)
  -- only one document has the name that the finding is about
  by_cases hs : s.name = x.subject
  · exact .inr (hother t fun ht => hne (hs.trans ht.symm))
  · exact .inl (hother s hs)

theorem documents_perm (h : ss.Perm ts) :
    (Loaded.ofSources ss).documents.Perm (Loaded.ofSources ts).documents :=
  h.filterMap _

/-! ## Compiling -/

/-- Definitions that checksums separate are identified by them. -/
theorem Separated.identified {fs : List Fragment} (h : Separated (fs.map Fragment.definition)) :
    Resolution.Identified fs := by
  intro f hf g hg hkey hsum
  have hfmem : f.definition ∈ fs.map Fragment.definition := List.mem_map_of_mem hf
  have hgmem : g.definition ∈ fs.map Fragment.definition := List.mem_map_of_mem hg
  exact h.encoding _ hfmem _ hgmem hkey (h.digest _ hfmem _ hgmem hkey hsum)

/-- **The result does not depend on the order of documents.** Whatever order documents with different
names are given in, they compile to the same registry with the same places and the same warnings, or
to the same findings in the same order. -/
theorem compile_perm (h : ss.Perm ts) (hnames : (ss.map Source.name).Nodup)
    (hsep : Separated (declaredDefinitions ss)) (given : Option Version) (strict : Bool) :
    compile ss given strict = compile ts given strict := by
  have hdocuments := documents_perm h
  have hmerged : Resolution.ofDocuments given (Loaded.ofSources ss).documents =
      Resolution.ofDocuments given (Loaded.ofSources ts).documents :=
    Resolution.ofFragments_perm given (hdocuments.flatMap_right _) (hdocuments.filterMap _)
      hsep.identified
  unfold compile Loaded.resolve Registry.validate
  dsimp only
  rw [hmerged]
  have hall := allFindings_congr_prior
    (Resolution.ofDocuments given (Loaded.ofSources ts).documents).registry
    (p := (Loaded.ofSources ss).findings
      ++ (Resolution.ofDocuments given (Loaded.ofSources ts).documents).findings)
    (q := (Loaded.ofSources ts).findings
      ++ (Resolution.ofDocuments given (Loaded.ofSources ts).documents).findings)
    (fun x => by rw [ties_append, ties_append, ties_findings_perm h hnames]) strict
  rw [hall]

private def dbOk : Attribute :=
  .new "db.ok" (.primitive (.scalar .int)) "D" [.int 2]

/-- A document with one declaration twice outside of its group, and a document with it alone. -/
private def stray : List Source :=
  [⟨"stray.yaml", .yaml,
      "groups: [{namespace: os, attributes: [&a {key: db.ok, type: int, brief: D, examples: [2], stability: stable}, *a]}]"⟩,
   ⟨"rows.yaml", .yaml,
      "attributes: [{key: db.ok, type: int, brief: D, examples: [2], stability: stable}]"⟩]

/-- The two findings about the stray declarations tie, and still come in one order. -/
theorem compile_stray_reverse :
    stray.Perm stray.reverse ∧ (stray.map Source.name).Nodup ∧
      Separated (declaredDefinitions stray) ∧
      compile stray none true = compile stray.reverse none true := by
  have hperm : stray.Perm stray.reverse := stray.reverse_perm.symm
  have hnames : (stray.map Source.name).Nodup := by decide
  have hdefs : declaredDefinitions stray = [dbOk] := by decide +kernel
  have hsep : Separated (declaredDefinitions stray) := by
    rw [hdefs]
    constructor
    · intro a ha b hb _ _
      rw [List.mem_singleton.mp ha, List.mem_singleton.mp hb]
    · intro a ha b hb _ _
      rw [List.mem_singleton.mp ha, List.mem_singleton.mp hb]
  exact ⟨hperm, hnames, hsep, compile_perm hperm hnames hsep none true⟩

end AttributeRegistry
