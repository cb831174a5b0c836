import AttributeRegistry.Generation
import AttributeRegistry.Proofs.Attribute.Decidable
import AttributeRegistry.Proofs.Resolution.Unanimous
import AttributeRegistry.Proofs.Validation.Accepted

/-!
# How definitions are spread over documents

Two lists of sources have the same content if every source parses, both declare the same definitions,
and the version comes out the same. In which order the definitions stand, in which documents, under
which names and how often, is left open (`SameContent`).

Main statement: a run cannot tell such lists apart (`Request.run_congr`). Checksums decide which
declarations of a key agree, so it is assumed that they separate the declared ones (`Separated`).
-/

namespace AttributeRegistry

/-- The definitions some sources declare. -/
def declaredDefinitions (ss : List Source) : List Attribute :=
  (Loaded.ofSources ss).fragments.map Fragment.definition

/-- The versions some sources declare. -/
def declaredVersions (ss : List Source) : List Version :=
  (Loaded.ofSources ss).documents.filterMap Document.version

/-- Two lists of parsing sources declare the same set of definitions; unless a version is given, they
declare the same set of versions too. -/
structure SameContent (given : Option Version) (ss ts : List Source) : Prop where
  parses_left : ∀ s ∈ ss, s.parse.isOk
  parses_right : ∀ t ∈ ts, t.parse.isOk
  definitions : ∀ a, a ∈ declaredDefinitions ss ↔ a ∈ declaredDefinitions ts
  versions : given.isSome ∨ ∀ v, v ∈ declaredVersions ss ↔ v ∈ declaredVersions ts

/-- Different definitions of a key have different canonical forms, and these different digests. -/
structure Separated (as : List Attribute) : Prop where
  digest : ∀ a ∈ as, ∀ b ∈ as, a.key = b.key → a.checksum = b.checksum →
    a.toJson.toText = b.toJson.toText
  encoding : ∀ a ∈ as, ∀ b ∈ as, a.key = b.key → a.toJson.toText = b.toJson.toText → a = b

theorem SameContent.symm {given : Option Version} {ss ts : List Source}
    (h : SameContent given ss ts) : SameContent given ts ss where
  parses_left := h.parses_right
  parses_right := h.parses_left
  definitions a := (h.definitions a).symm
  versions := h.versions.imp_right fun hv v => (hv v).symm

theorem Separated.congr {as bs : List Attribute} (hsep : Separated as) (h : ∀ a, a ∈ as ↔ a ∈ bs) :
    Separated bs := by
  constructor
  · intro a ha b hb
    exact hsep.digest a ((h a).mpr ha) b ((h b).mpr hb)
  · intro a ha b hb
    exact hsep.encoding a ((h a).mpr ha) b ((h b).mpr hb)

/-! ## Loading -/

theorem findings_ofSources {ss : List Source} (h : ∀ s ∈ ss, s.parse.isOk) :
    (Loaded.ofSources ss).findings = [] := by
  refine List.flatMap_eq_nil_iff.mpr ?_
  intro s hs
  have hok := h s hs
  match hp : s.parse with
  | .ok d => rfl
  | .error problems =>
    rw [hp] at hok
    exact absurd hok (by simp [Except.isOk, Except.toBool])

theorem documents_ofSources {ss : List Source} {ds : List Document}
    (h : ss.map (fun s => s.parse.toOption) = ds.map some) : (Loaded.ofSources ss).documents = ds := by
  show ss.filterMap (fun s => s.parse.toOption) = ds
  have hfilter : ss.filterMap (fun s => s.parse.toOption) =
      (ss.map fun s => s.parse.toOption).filterMap id := by
    rw [List.filterMap_map]
    rfl
  rw [hfilter, h, List.filterMap_map]
  exact List.filterMap_some

theorem isOk_parse_of_map {ss : List Source} {ds : List Document}
    (h : ss.map (fun s => s.parse.toOption) = ds.map some) : ∀ s ∈ ss, s.parse.isOk := by
  intro s hs
  have hmem : s.parse.toOption ∈ ds.map some := by
    rw [← h]
    exact List.mem_map_of_mem hs
  obtain ⟨d, -, hd⟩ := List.mem_map.mp hmem
  match hp : s.parse with
  | .ok _ => rfl
  | .error _ =>
    rw [hp] at hd
    exact absurd hd (by simp [Except.toOption])

theorem declared_ofSources (ss : List Source) :
    ((Loaded.ofSources ss).documents.filterMap fun d => d.version.map fun v => (d.name, v)).map
      Prod.snd = declaredVersions ss := by
  rw [List.map_filterMap, declaredVersions]
  congr 1
  funext d
  cases d.version <;> rfl

/-! ## Resolving -/

/-- Declarations are unanimous iff equal keys among the definitions have equal checksums. -/
theorem unanimous_iff {fs : List Fragment} :
    Resolution.Unanimous fs ↔ ∀ a ∈ fs.map Fragment.definition, ∀ b ∈ fs.map Fragment.definition,
      a.key = b.key → a.checksum = b.checksum := by
  unfold Resolution.Unanimous
  simp only [List.forall_mem_map]

variable {given : Option Version} {ss ts : List Source}

/-- The findings of resolving parsing sources are those of the merge. -/
theorem resolve_ofSources_snd (h : ∀ s ∈ ss, s.parse.isOk) :
    ((Loaded.ofSources ss).resolve given).2 =
      (Resolution.ofDocuments given (Loaded.ofSources ss).documents).findings := by
  show (Loaded.ofSources ss).findings ++ _ = _
  rw [findings_ofSources h, List.nil_append]

/-- Resolving parsing sources finds nothing iff declared versions agree, or one is given, and no two
definitions of a key differ in their checksums. -/
theorem resolve_ofSources_snd_eq_nil_iff (h : ∀ s ∈ ss, s.parse.isOk) :
    ((Loaded.ofSources ss).resolve given).2 = [] ↔
      (given.isSome ∨ ∀ v ∈ declaredVersions ss, ∀ w ∈ declaredVersions ss, v = w) ∧
        ∀ a ∈ declaredDefinitions ss, ∀ b ∈ declaredDefinitions ss,
          a.key = b.key → a.checksum = b.checksum := by
  rw [resolve_ofSources_snd h, Resolution.ofDocuments, Resolution.ofFragments_findings_eq_nil_iff,
    declared_ofSources, unanimous_iff]
  rfl

theorem isError_of_mem_resolve (h : ∀ s ∈ ss, s.parse.isOk) {f : Finding}
    (hf : f ∈ ((Loaded.ofSources ss).resolve given).2) : f.isError = true := by
  rw [resolve_ofSources_snd h] at hf
  exact Resolution.isError_of_mem_ofFragments hf

/-- Sources of the same content either both resolve without findings, or neither does. -/
theorem resolve_snd_eq_nil_congr (h : SameContent given ss ts) :
    ((Loaded.ofSources ss).resolve given).2 = [] ↔
      ((Loaded.ofSources ts).resolve given).2 = [] := by
  rw [resolve_ofSources_snd_eq_nil_iff h.parses_left, resolve_ofSources_snd_eq_nil_iff h.parses_right]
  have hversions : (given.isSome ∨ ∀ v ∈ declaredVersions ss, ∀ w ∈ declaredVersions ss, v = w) ↔
      (given.isSome ∨ ∀ v ∈ declaredVersions ts, ∀ w ∈ declaredVersions ts, v = w) := by
    rcases h.versions with hgiven | hversions
    · simp [hgiven]
    · simp only [hversions]
  simp only [hversions, h.definitions]

theorem version_resolve_congr (h : SameContent given ss ts) :
    ((Loaded.ofSources ss).resolve given).1.version =
      ((Loaded.ofSources ts).resolve given).1.version := by
  refine Resolution.resolveVersion_fst_congr ?_
  rcases h.versions with hgiven | hversions
  · exact .inl hgiven
  · right
    intro v
    rw [declared_ofSources, declared_ofSources]
    exact hversions v

/-- If checksums separate the definitions and resolving finds nothing, the registry holds exactly the
declared definitions. -/
theorem mem_attributes_resolve (h : ∀ s ∈ ss, s.parse.isOk)
    (hsep : Separated (declaredDefinitions ss))
    (hnil : ((Loaded.ofSources ss).resolve given).2 = []) {a : Attribute} :
    a ∈ ((Loaded.ofSources ss).resolve given).1.attributes ↔ a ∈ declaredDefinitions ss := by
  refine Resolution.mem_attributes_ofFragments ?_
  intro f hf g hg hkey
  have hfmem : f.definition ∈ declaredDefinitions ss := List.mem_map_of_mem hf
  have hgmem : g.definition ∈ declaredDefinitions ss := List.mem_map_of_mem hg
  -- no conflict, so one checksum; one checksum, so one canonical form
  have hsum := ((resolve_ofSources_snd_eq_nil_iff h).mp hnil).2 _ hfmem _ hgmem hkey
  have htext := hsep.digest _ hfmem _ hgmem hkey hsum
  exact hsep.encoding _ hfmem _ hgmem hkey htext

/-- Sources of the same content that resolve without findings give the same definitions. -/
theorem attributes_resolve_congr (h : SameContent given ss ts)
    (hsep : Separated (declaredDefinitions ss))
    (hnil : ((Loaded.ofSources ss).resolve given).2 = []) :
    ((Loaded.ofSources ss).resolve given).1.attributes =
      ((Loaded.ofSources ts).resolve given).1.attributes := by
  have hsep' : Separated (declaredDefinitions ts) := hsep.congr h.definitions
  have hnil' := (resolve_snd_eq_nil_congr h).mp hnil
  refine Registry.attributes_ext ?_
  intro a
  rw [mem_attributes_resolve h.parses_left hsep hnil,
    mem_attributes_resolve h.parses_right hsep' hnil']
  exact h.definitions a

/-! ## Compiling -/

theorem compile_eq (ss : List Source) (given : Option Version) (strict : Bool) :
    compile ss given strict = ((Loaded.ofSources ss).resolve given).1.validate
      ((Loaded.ofSources ss).resolve given).2 strict :=
  rfl

/-- An accepted registry was resolved without findings. -/
theorem resolve_snd_eq_nil_of_compile {strict : Bool} {v : ValidRegistry}
    (h : ∀ s ∈ ss, s.parse.isOk) (hv : compile ss given strict = .ok v) :
    ((Loaded.ofSources ss).resolve given).2 = [] := by
  rw [compile_eq] at hv
  have hno := (Registry.validate_eq_ok_iff.mp hv).1
  rw [Registry.hasErrors_allFindings] at hno
  refine List.eq_nil_iff_forall_not_mem.mpr ?_
  intro f hf
  -- whatever resolving finds is an error, and there was none
  have herror := isError_of_mem_resolve h hf
  rw [hno.1 f (List.mem_append_left _ hf)] at herror
  exact absurd herror (by decide)

/-- What is accepted of one list is accepted of any other with the same content, and is the same but
for the places the definitions were declared at. -/
theorem exists_compile_of_sameContent {strict : Bool} {v : ValidRegistry}
    (h : SameContent given ss ts) (hsep : Separated (declaredDefinitions ss))
    (hv : compile ss given strict = .ok v) :
    ∃ w, compile ts given strict = .ok w ∧ v.registry.version = w.registry.version ∧
      v.registry.attributes = w.registry.attributes ∧ v.warnings = w.warnings := by
  have hnil := resolve_snd_eq_nil_of_compile h.parses_left hv
  have hnil' := (resolve_snd_eq_nil_congr h).mp hnil
  have hattrs := attributes_resolve_congr h hsep hnil
  have hversion := version_resolve_congr h
  -- the findings left are those of the checks, and these see the definitions only
  have hall : ((Loaded.ofSources ts).resolve given).1.allFindings
      ((Loaded.ofSources ts).resolve given).2 strict =
    ((Loaded.ofSources ss).resolve given).1.allFindings
      ((Loaded.ofSources ss).resolve given).2 strict := by
    rw [hnil, hnil', Registry.allFindings_congr hattrs]
  rw [compile_eq] at hv
  obtain ⟨hno, rfl⟩ := Registry.validate_eq_ok_iff.mp hv
  refine ⟨⟨_, _⟩, ?_, hversion, hattrs, hall.symm⟩
  rw [compile_eq]
  refine Registry.validate_eq_ok_iff.mpr ⟨?_, rfl⟩
  rw [hall]
  exact hno

/-! ## Running -/

namespace Request

variable {r : Request}

theorem run_eq_ok_iff {x : Run} :
    r.run ss = .ok x ↔
      r.compile ss = .ok x.registry ∧ x.artifacts = Codegen.generate x.registry r.targets r.profiles := by
  unfold run
  cases x with
  | mk v a =>
    cases hc : r.compile ss with
    | error p => simp [Bind.bind, Except.bind]
    | ok w =>
      simp only [Bind.bind, Except.bind, pure, Except.pure, Except.ok.injEq, Run.mk.injEq]
      constructor
      · rintro ⟨rfl, rfl⟩
        exact ⟨rfl, rfl⟩
      · rintro ⟨rfl, rfl⟩
        exact ⟨rfl, rfl⟩

theorem exists_run_iff : (∃ x, r.run ss = .ok x) ↔ ∃ v, r.compile ss = .ok v := by
  constructor
  · rintro ⟨x, hx⟩
    exact ⟨x.registry, (run_eq_ok_iff.mp hx).1⟩
  · rintro ⟨v, hv⟩
    exact ⟨⟨v, Codegen.generate v r.targets r.profiles⟩, run_eq_ok_iff.mpr ⟨hv, rfl⟩⟩

/-- **A run does not show how definitions are spread over documents.** Of two lists of sources with
the same content, either both are accepted or neither is; the registries agree in everything but the
places of declarations, and the modules and their manifest are the same to the last character. -/
theorem run_congr (h : SameContent r.version ss ts) (hsep : Separated (declaredDefinitions ss)) :
    ((∃ v, r.compile ss = .ok v) ↔ ∃ w, r.compile ts = .ok w) ∧
    (∀ v w, r.compile ss = .ok v → r.compile ts = .ok w →
      v.registry.version = w.registry.version ∧ v.registry.get? = w.registry.get? ∧
      v.registry.keys = w.registry.keys ∧ v.registry.checksum = w.registry.checksum ∧
      v.warnings = w.warnings) ∧
    ((∃ x, r.run ss = .ok x) ↔ ∃ y, r.run ts = .ok y) ∧
    ∀ x y, r.run ss = .ok x → r.run ts = .ok y →
      x.artifacts.items = y.artifacts.items ∧
      x.artifacts.manifest.toText = y.artifacts.manifest.toText := by
  have hagree : ∀ v w, r.compile ss = .ok v → r.compile ts = .ok w →
      v.registry.version = w.registry.version ∧ v.registry.attributes = w.registry.attributes ∧
      v.warnings = w.warnings := by
    intro v w hv hw
    obtain ⟨w', hw', hagree⟩ := exists_compile_of_sameContent h hsep hv
    rw [show AttributeRegistry.compile ts r.version r.strict = .ok w from hw] at hw'
    cases hw'
    exact hagree
  have haccepted : (∃ v, r.compile ss = .ok v) ↔ ∃ w, r.compile ts = .ok w := by
    constructor
    · rintro ⟨v, hv⟩
      obtain ⟨w, hw, -⟩ := exists_compile_of_sameContent h hsep hv
      exact ⟨w, hw⟩
    · rintro ⟨w, hw⟩
      obtain ⟨v, hv, -⟩ := exists_compile_of_sameContent h.symm (hsep.congr h.definitions) hw
      exact ⟨v, hv⟩
  refine ⟨haccepted, ?_, ?_, ?_⟩
  · intro v w hv hw
    obtain ⟨hversion, hattrs, hwarnings⟩ := hagree v w hv hw
    exact ⟨hversion, Registry.get?_congr hattrs, Registry.keys_congr hattrs,
      Registry.checksum_congr hversion hattrs, hwarnings⟩
  · rw [exists_run_iff, exists_run_iff]
    exact haccepted
  · intro x y hx hy
    obtain ⟨hv, hx⟩ := run_eq_ok_iff.mp hx
    obtain ⟨hw, hy⟩ := run_eq_ok_iff.mp hy
    obtain ⟨hversion, hattrs, -⟩ := hagree _ _ hv hw
    rw [hx, hy, Codegen.generate_congr hversion hattrs]
    exact ⟨rfl, rfl⟩

/-- Two documents, each with a definition. -/
private def apart : List Source :=
  [⟨"rows.yaml", .yaml,
      "attributes:\n- key: db.rows\n  type: int\n  brief: R\n  examples: [1]\n  stability: stable"⟩,
   ⟨"rest.yaml", .yaml,
      "version: 1.2.0\ngroups:\n- namespace: db\n  attributes:\n  - key: db.ok\n    type: int\n    brief: D\n    examples: [2]\n    stability: stable"⟩]

/-- The same definitions in one document, in another order. -/
private def together : List Source :=
  [⟨"all.yaml", .yaml,
      "version: 1.2.0\nattributes:\n- key: db.ok\n  type: int\n  brief: D\n  examples: [2]\n  stability: stable\n- key: db.rows\n  type: int\n  brief: R\n  examples: [1]\n  stability: stable"⟩]

private def rows : Attribute :=
  .new "db.rows" (.primitive (.scalar .int)) "R" [.int 1]

private def done : Attribute :=
  .new "db.ok" (.primitive (.scalar .int)) "D" [.int 2]

/-- The definitions of two documents in one. -/
theorem run_congr_apart_together :
    SameContent default.version apart together ∧ Separated (declaredDefinitions apart) ∧
    ((∃ x, default.run apart = .ok x) ↔ ∃ y, default.run together = .ok y) ∧
    ∀ x y, default.run apart = .ok x → default.run together = .ok y →
      x.artifacts.items = y.artifacts.items ∧
      x.artifacts.manifest.toText = y.artifacts.manifest.toText := by
  have hapart : apart.map (fun s => s.parse.toOption) =
      [⟨"rows.yaml", none, [⟨rows, ⟨"rows.yaml", 0⟩⟩]⟩,
        ⟨"rest.yaml", some ⟨1, 2, 0, [], []⟩, [⟨done, ⟨"rest.yaml", 0⟩⟩]⟩].map some := by
    decide +kernel
  have htogether : together.map (fun s => s.parse.toOption) =
      [⟨"all.yaml", some ⟨1, 2, 0, [], []⟩,
        [⟨done, ⟨"all.yaml", 0⟩⟩, ⟨rows, ⟨"all.yaml", 1⟩⟩]⟩].map some := by
    decide +kernel
  have hdefs : declaredDefinitions apart = [rows, done] := by
    rw [declaredDefinitions, Loaded.fragments, documents_ofSources hapart]
    rfl
  have hdefs' : declaredDefinitions together = [done, rows] := by
    rw [declaredDefinitions, Loaded.fragments, documents_ofSources htogether]
    rfl
  have hversions : declaredVersions apart = declaredVersions together := by
    rw [declaredVersions, declaredVersions, documents_ofSources hapart,
      documents_ofSources htogether]
    rfl
  have hsame : SameContent default.version apart together := by
    refine ⟨isOk_parse_of_map hapart, isOk_parse_of_map htogether, ?_, .inr ?_⟩
    · intro a
      rw [hdefs, hdefs']
      simp [or_comm]
    · rw [hversions]
      simp
  have hunique : ∀ a ∈ [rows, done], ∀ b ∈ [rows, done], a.key = b.key → a = b := by
    decide +kernel
  have hsep : Separated (declaredDefinitions apart) := by
    rw [hdefs]
    refine ⟨?_, fun a ha b hb hkey _ => hunique a ha b hb hkey⟩
    intro a ha b hb hkey _
    rw [hunique a ha b hb hkey]
  obtain ⟨-, -, hrun, hagree⟩ := run_congr (r := default) hsame hsep
  exact ⟨hsame, hsep, hrun, hagree⟩

end Request

end AttributeRegistry
