import AttributeRegistry.Document.Grammar
import AttributeRegistry.Proofs.Text.Lines
import Mathlib.Data.List.Basic

/-!
# What becomes of a document

The contents of a source give all their declarations, numbered through the document, or every breach of
a rule: of its version, then group by group of the group's name and of the keys of its declarations. A
`Breach` says where it is, and the number of a misplaced declaration is the one it would have had
(`Breaks.declaration`).

Main statement: a source is parsed iff its contents are sound, and gives a document with all their
declarations or one problem for each breach, in order (`parse_exact`).
-/

namespace AttributeRegistry

/-! ## Rules -/

/-- The key `name`, a period, and something more. -/
def Attribute.InNamespace (a : Attribute) (name : String) : Prop :=
  ∃ rest, rest ≠ "" ∧ a.key = name ++ "." ++ rest

/-- A name of blanks only. -/
def Group.Unnamed (g : Group) : Prop :=
  ∀ c ∈ g.namespaceName.toList, Text.isBlank c = true

/-- A place where a document breaks a rule: the group, and the number of the declaration in the
document. -/
inductive Breach where
  | version (e : Version.Error)
  | unnamed (group : Nat)
  | misplaced (group index : Nat) (key name : String)

namespace Breach

/-- The place of a breach: the version is in front of the groups, the name of a group in front of its
declarations. -/
def place : Breach → Nat × Nat
  | .version _ => (0, 0)
  | .unnamed group => (group + 1, 0)
  | .misplaced group index _ _ => (group + 1, index + 1)

/-- One breach is in front of another in the document. -/
def Before (b b' : Breach) : Prop :=
  b.place.1 < b'.place.1 ∨ b.place.1 = b'.place.1 ∧ b.place.2 < b'.place.2

/-- How a breach is reported. -/
def finding (document : String) : Breach → Finding
  | .version e =>
    ⟨document, .malformedSchema, .error, "invalid registry version: " ++ e.message, []⟩
  | .unnamed _ => ⟨document, .malformedSchema, .error, "group namespace must not be empty", []⟩
  | .misplaced _ index key name =>
    ⟨document, .malformedSchema, .error,
      "attribute '" ++ key ++ "' is declared outside its group namespace '" ++ name ++ "'",
      ["declaration #" ++ toString index]⟩

end Breach

namespace Contents

/-- All declarations of a document, those in groups first. -/
def declarations (c : Contents) : List Attribute :=
  c.groups.flatMap Group.attributes ++ c.attributes

/-- The number of declarations in front of a group. -/
def start (c : Contents) (group : Nat) : Nat :=
  ((c.groups.take group).flatMap Group.attributes).length

/-- A document breaks a rule somewhere. -/
inductive Breaks (c : Contents) : Breach → Prop
  | version {raw : String} {e : Version.Error} (declared : c.version = some raw)
    (refused : Version.parse raw = .error e) : Breaks c (.version e)
  | unnamed {k : Nat} {g : Group} (group : c.groups[k]? = some g) (unnamed : g.Unnamed) :
    Breaks c (.unnamed k)
  | misplaced {k j : Nat} {g : Group} {a : Attribute} (group : c.groups[k]? = some g)
    (declared : g.attributes[j]? = some a) (outside : ¬ a.InNamespace g.namespaceName) :
    Breaks c (.misplaced k (c.start k + j) a.key g.namespaceName)

/-- A document that breaks no rule. -/
structure Sound (c : Contents) : Prop where
  version : ∀ raw, c.version = some raw → ∃ v, Version.parse raw = .ok v
  named : ∀ g ∈ c.groups, ∃ ch ∈ g.namespaceName.toList, Text.isBlank ch = false
  placed : ∀ g ∈ c.groups, ∀ a ∈ g.attributes, a.InNamespace g.namespaceName

variable {c : Contents}

/-- The number of a misplaced declaration is its place among all declarations. -/
theorem Breaks.declaration {k i : Nat} {key name : String} (h : c.Breaks (.misplaced k i key name)) :
    ∃ a, c.declarations[i]? = some a ∧ a.key = key := by
  cases h with
  | @misplaced _ j g a group declared outside =>
    refine ⟨a, ?_, rfl⟩
    obtain ⟨hk, hg⟩ := List.getElem?_eq_some_iff.mp group
    obtain ⟨hj, -⟩ := List.getElem?_eq_some_iff.mp declared
    have hgroups : c.groups = c.groups.take k ++ g :: c.groups.drop (k + 1) := by
      rw [← hg, ← List.drop_eq_getElem_cons hk, List.take_append_drop]
    have hsplit : c.declarations = (c.groups.take k).flatMap Group.attributes ++
        (g.attributes ++ ((c.groups.drop (k + 1)).flatMap Group.attributes ++ c.attributes)) := by
      calc c.declarations
        _ = (c.groups.take k ++ g :: c.groups.drop (k + 1)).flatMap Group.attributes
            ++ c.attributes := by rw [← hgroups, declarations]
        _ = _ := by simp only [List.flatMap_append, List.flatMap_cons, List.append_assoc]
    rw [hsplit, start, List.getElem?_append_right (Nat.le_add_right _ _), Nat.add_sub_cancel_left,
      List.getElem?_append_left hj, declared]

theorem sound_iff : c.Sound ↔ ∀ b, ¬ c.Breaks b := by
  constructor
  · rintro ⟨hversion, hnamed, hplaced⟩ b hb
    cases hb with
    | version declared refused =>
      obtain ⟨v, hv⟩ := hversion _ declared
      rw [refused] at hv
      cases hv
    | unnamed group unnamed =>
      obtain ⟨ch, hch, hno⟩ := hnamed _ (List.mem_of_getElem? group)
      rw [unnamed ch hch] at hno
      cases hno
    | misplaced group declared outside =>
      exact outside (hplaced _ (List.mem_of_getElem? group) _ (List.mem_of_getElem? declared))
  · intro h
    refine ⟨fun raw hraw => ?_, fun g hg => ?_, fun g hg a ha => ?_⟩
    · cases hparse : Version.parse raw with
      | ok v => exact ⟨v, rfl⟩
      | error e => exact absurd (.version hraw hparse) (h _)
    · obtain ⟨k, hk⟩ := List.mem_iff_getElem?.mp hg
      by_cases hunnamed : g.Unnamed
      · exact absurd (.unnamed hk hunnamed) (h _)
      · unfold Group.Unnamed at hunnamed
        simpa only [Classical.not_forall, exists_prop, Bool.not_eq_true] using hunnamed
    · obtain ⟨k, hk⟩ := List.mem_iff_getElem?.mp hg
      obtain ⟨j, hj⟩ := List.mem_iff_getElem?.mp ha
      by_cases hplaced : a.InNamespace g.namespaceName
      · exact hplaced
      · exact absurd (.misplaced hk hj hplaced) (h _)

end Contents

/-- The test of a key decides whether it is in a namespace. -/
theorem liesUnder_iff {a : Attribute} {name : String} :
    liesUnder name.toList a.key.toList = true ↔ a.InNamespace name := by
  constructor
  · intro h
    unfold liesUnder at h
    split at h
    · next c rest hdrop =>
      refine ⟨String.ofList (c :: rest), by simp, ?_⟩
      rw [← String.toList_inj, Text.eq_append_of_dropBeginning? hdrop]
      simp
    · cases h
  · rintro ⟨rest, hne, hkey⟩
    obtain ⟨c, cs, hrest⟩ := List.exists_cons_of_ne_nil (mt String.toList_eq_nil_iff.mp hne)
    have hchars : a.key.toList = name.toList ++ '.' :: c :: cs := by
      simp [hkey, hrest]
    rw [liesUnder, hchars, Text.dropBeginning?_append]
    rfl

/-! ## Breaches in order -/

namespace Breach

/-- The breach of a declared version. -/
def ofVersion : Option String → List Breach
  | none => []
  | some raw =>
    match Version.parse raw with
    | .ok _ => []
    | .error e => [.version e]

/-- The breach of a declaration in the `k`-th group. -/
def ofDeclaration? (k : Nat) (g : Group) (index : Nat) (a : Attribute) : Option Breach :=
  if liesUnder g.namespaceName.toList a.key.toList then none
  else some (.misplaced k index a.key g.namespaceName)

/-- The breaches of the `k`-th group, whose declarations are numbered from `start` on. -/
def ofGroup (k start : Nat) (g : Group) : List Breach :=
  (if Text.isBlankText g.namespaceName then [.unnamed k] else [])
  ++ (g.attributes.zipIdx start).filterMap fun (a, index) => ofDeclaration? k g index a

/-- The breaches of groups, the first of which is the `k`-th. -/
def ofGroups (k start : Nat) : List Group → List Breach
  | [] => []
  | g :: gs => ofGroup k start g ++ ofGroups (k + 1) (start + g.attributes.length) gs

/-- All breaches of a document. -/
def all (c : Contents) : List Breach :=
  ofVersion c.version ++ ofGroups 0 0 c.groups

theorem mem_ofVersion {declared : Option String} {b : Breach} :
    b ∈ ofVersion declared ↔
      ∃ raw e, declared = some raw ∧ Version.parse raw = .error e ∧ b = .version e := by
  unfold ofVersion
  cases declared with
  | none => simp
  | some raw => cases hparse : Version.parse raw <;> simp [hparse]

theorem ofDeclaration?_eq_some {k index : Nat} {g : Group} {a : Attribute} {b : Breach} :
    ofDeclaration? k g index a = some b ↔
      ¬ a.InNamespace g.namespaceName ∧ b = .misplaced k index a.key g.namespaceName := by
  rw [← liesUnder_iff, ofDeclaration?]
  split
  · next h => simp [h]
  · next h => simp [h, eq_comm]

theorem mem_ofGroup {k start : Nat} {g : Group} {b : Breach} :
    b ∈ ofGroup k start g ↔ (g.Unnamed ∧ b = .unnamed k) ∨
      ∃ j a, g.attributes[j]? = some a ∧ ¬ a.InNamespace g.namespaceName ∧
        b = .misplaced k (start + j) a.key g.namespaceName := by
  rw [ofGroup, List.mem_append, List.mem_filterMap]
  refine or_congr ?_ ⟨?_, ?_⟩
  · rw [Text.isBlankText, Text.allBlank, Group.Unnamed, ← List.all_eq_true]
    by_cases hblank : g.namespaceName.toList.all Text.isBlank = true
    · simp [hblank]
    · simp [hblank]
  · rintro ⟨⟨a, index⟩, hmem, hb⟩
    obtain ⟨hle, hj⟩ := List.mk_mem_zipIdx_iff_le_and_getElem?_sub.mp hmem
    obtain ⟨hno, rfl⟩ := ofDeclaration?_eq_some.mp hb
    exact ⟨index - start, a, hj, hno, by rw [Nat.add_sub_cancel' hle]⟩
  · rintro ⟨j, a, hj, hno, rfl⟩
    refine ⟨(a, start + j), ?_, ofDeclaration?_eq_some.mpr ⟨hno, rfl⟩⟩
    refine List.mk_mem_zipIdx_iff_le_and_getElem?_sub.mpr ⟨Nat.le_add_right _ _, ?_⟩
    rw [Nat.add_sub_cancel_left, hj]

/-- The breaches of groups are those of each, numbered behind the groups in front of it. -/
theorem mem_ofGroups {gs : List Group} {k start : Nat} {b : Breach} :
    b ∈ ofGroups k start gs ↔ ∃ i g, gs[i]? = some g ∧
      b ∈ ofGroup (k + i) (start + ((gs.take i).flatMap Group.attributes).length) g := by
  induction gs generalizing k start with
  | nil => simp [ofGroups]
  | cons g gs ih =>
    rw [ofGroups, List.mem_append, ih]
    constructor
    · rintro (hb | ⟨i, g', hg', hb⟩)
      · exact ⟨0, g, rfl, by simpa using hb⟩
      · refine ⟨i + 1, g', by simpa using hg', ?_⟩
        simpa [Nat.add_assoc, Nat.add_comm 1 i] using hb
    · rintro ⟨i, g', hg', hb⟩
      cases i with
      | zero =>
        cases hg'
        exact .inl (by simpa using hb)
      | succ i =>
        refine .inr ⟨i, g', by simpa using hg', ?_⟩
        simpa [Nat.add_assoc, Nat.add_comm 1 i] using hb

/-- **The breaches are all places where a rule is broken.** -/
theorem mem_all {c : Contents} {b : Breach} : b ∈ all c ↔ c.Breaks b := by
  rw [all, List.mem_append, mem_ofVersion, mem_ofGroups]
  simp only [mem_ofGroup, Nat.zero_add]
  constructor
  · rintro (⟨raw, e, hraw, he, rfl⟩ | ⟨k, g, hg, ⟨hunnamed, rfl⟩ | ⟨j, a, hj, hno, rfl⟩⟩)
    · exact .version hraw he
    · exact .unnamed hg hunnamed
    · exact .misplaced hg hj hno
  · rintro (⟨hraw, he⟩ | ⟨hg, hunnamed⟩ | ⟨hg, hj, hno⟩)
    · exact .inl ⟨_, _, hraw, he, rfl⟩
    · exact .inr ⟨_, _, hg, .inl ⟨hunnamed, rfl⟩⟩
    · exact .inr ⟨_, _, hg, .inr ⟨_, _, hj, hno, rfl⟩⟩

theorem fst_place_of_mem_ofGroup {k start : Nat} {g : Group} {b : Breach} (h : b ∈ ofGroup k start g) :
    b.place.1 = k + 1 := by
  rcases mem_ofGroup.mp h with ⟨-, rfl⟩ | ⟨j, a, -, -, rfl⟩ <;> rfl

theorem pairwise_ofGroup (k start : Nat) (g : Group) : (ofGroup k start g).Pairwise Before := by
  have hindices : (g.attributes.zipIdx start).Pairwise fun p q => p.2 < q.2 := by
    rw [← List.pairwise_map (f := Prod.snd) (R := (· < ·)), List.zipIdx_map_snd]
    exact List.pairwise_lt_range'
  rw [ofGroup, List.pairwise_append, List.pairwise_filterMap]
  refine ⟨by split <;> simp, hindices.imp ?_, ?_⟩
  · intro p q hlt b hb b' hb'
    obtain ⟨-, rfl⟩ := ofDeclaration?_eq_some.mp hb
    obtain ⟨-, rfl⟩ := ofDeclaration?_eq_some.mp hb'
    exact .inr ⟨rfl, Nat.succ_lt_succ hlt⟩
  · intro b hb b' hb'
    obtain ⟨p, -, hp⟩ := List.mem_filterMap.mp hb'
    obtain ⟨-, rfl⟩ := ofDeclaration?_eq_some.mp hp
    split at hb
    · obtain rfl := List.mem_singleton.mp hb
      exact .inr ⟨rfl, Nat.succ_pos _⟩
    · cases hb

theorem pairwise_ofGroups (k start : Nat) (gs : List Group) : (ofGroups k start gs).Pairwise Before := by
  induction gs generalizing k start with
  | nil => exact .nil
  | cons g gs ih =>
    refine List.pairwise_append.mpr ⟨pairwise_ofGroup k start g, ih _ _, fun b hb b' hb' => .inl ?_⟩
    obtain ⟨i, g', -, hb'⟩ := mem_ofGroups.mp hb'
    rw [fst_place_of_mem_ofGroup hb, fst_place_of_mem_ofGroup hb']
    omega

/-- The breaches come in the order of the document. -/
theorem pairwise_all (c : Contents) : (all c).Pairwise Before := by
  refine List.pairwise_append.mpr ⟨?_, pairwise_ofGroups _ _ _, fun b hb b' hb' => .inl ?_⟩
  · unfold ofVersion
    split
    · exact .nil
    · split <;> simp
  · obtain ⟨raw, e, -, -, rfl⟩ := mem_ofVersion.mp hb
    obtain ⟨i, g, -, hb'⟩ := mem_ofGroups.mp hb'
    rw [fst_place_of_mem_ofGroup hb']
    exact Nat.succ_pos _

end Breach

/-! ## Problems -/

namespace Source

variable {s : Source} {c : Contents}

theorem snd_versionOf (s : Source) (declared : Option String) :
    (s.versionOf declared).2 = (Breach.ofVersion declared).map (Breach.finding s.name) := by
  unfold versionOf Breach.ofVersion
  cases declared with
  | none => rfl
  | some raw => cases hparse : Version.parse raw <;> simp [hparse, problem, Breach.finding, Finding.new, Code.severity]

theorem misplaced_eq (s : Source) (k index : Nat) (g : Group) (a : Attribute) :
    s.misplaced g index a =
      ((Breach.ofDeclaration? k g index a).map (Breach.finding s.name)).toList := by
  unfold misplaced Breach.ofDeclaration?
  split <;> rfl

theorem groupProblems_eq (s : Source) (k start : Nat) (g : Group) :
    s.groupProblems start g = (Breach.ofGroup k start g).map (Breach.finding s.name) := by
  rw [groupProblems, Breach.ofGroup, List.map_append, List.map_filterMap,
    List.filterMap_eq_flatMap_toList]
  congr 1
  · split <;> rfl
  · exact List.flatMap_congr fun p _ => misplaced_eq s k p.2 g p.1

theorem groupsProblems_eq (s : Source) (k start : Nat) (gs : List Group) :
    s.groupsProblems start gs = (Breach.ofGroups k start gs).map (Breach.finding s.name) := by
  induction gs generalizing k start with
  | nil => rfl
  | cons g gs ih => rw [groupsProblems, Breach.ofGroups, List.map_append, groupProblems_eq s k, ih (k + 1)]

/-- **Every breach is reported, and nothing else.** -/
theorem problems_eq (s : Source) (c : Contents) :
    (s.versionOf c.version).2 ++ s.groupsProblems 0 c.groups =
      (Breach.all c).map (Breach.finding s.name) := by
  rw [snd_versionOf, groupsProblems_eq s 0, ← List.map_append]
  rfl

theorem fst_versionOf (s : Source) (declared : Option String) :
    (s.versionOf declared).1 = declared.bind fun raw => (Version.parse raw).toOption := by
  unfold versionOf
  cases declared with
  | none => rfl
  | some raw => cases hparse : Version.parse raw <;> simp [hparse, Except.toOption]

/-- A source with contents gives their declarations if there is no breach, and else its breaches. -/
theorem parse_eq (h : s.contents = .ok c) :
    s.parse = if Breach.all c = [] then
        .ok ⟨s.name, c.version.bind fun raw => (Version.parse raw).toOption, s.fragments c⟩
      else .error ((Breach.all c).map (Breach.finding s.name)) := by
  unfold parse
  rw [h]
  dsimp only
  rw [problems_eq, fst_versionOf]
  cases Breach.all c with
  | nil => rfl
  | cons b bs => rfl

theorem map_definition_fragments (s : Source) (c : Contents) :
    (s.fragments c).map Fragment.definition = c.declarations := by
  unfold fragments
  rw [List.map_map]
  exact List.zipIdx_map_fst 0 _

theorem map_origin_fragments (s : Source) (c : Contents) :
    (s.fragments c).map Fragment.origin =
      (List.range (s.fragments c).length).map (Origin.mk s.name) := by
  have hindices : (s.fragments c).map (fun f => f.origin.index) = List.range (s.fragments c).length := by
    unfold fragments
    rw [List.map_map, List.length_map, List.length_zipIdx, List.range_eq_range']
    exact List.zipIdx_map_snd 0 _
  rw [← hindices, List.map_map]
  refine List.map_congr_left fun f hf => ?_
  obtain ⟨p, -, rfl⟩ := List.mem_map.mp hf
  rfl

/-- **A document becomes fragments completely and in order, or every breach of a rule is reported.** A
source with contents is parsed iff they are sound. The document then has the declarations as they are,
those in groups first, with the numbers from zero on; otherwise there is one problem for each breach, in
the order of the document, and that of a misplaced declaration has the number of its place among all
declarations. -/
theorem parse_exact (h : s.contents = .ok c) :
    ((∃ d, s.parse = .ok d) ↔ c.Sound) ∧
    (∀ d, s.parse = .ok d →
      d.name = s.name ∧ d.version = c.version.bind (fun raw => (Version.parse raw).toOption) ∧
      d.fragments.map Fragment.definition = c.groups.flatMap Group.attributes ++ c.attributes ∧
      d.fragments.map Fragment.origin = (List.range d.fragments.length).map (Origin.mk s.name)) ∧
    (∀ problems, s.parse = .error problems → ∃ breaches : List Breach,
      breaches.Pairwise Breach.Before ∧ (∀ b, b ∈ breaches ↔ c.Breaks b) ∧
        problems = breaches.map (Breach.finding s.name)) ∧
    ∀ k i key name, c.Breaks (.misplaced k i key name) → ∃ a,
      (c.groups.flatMap Group.attributes ++ c.attributes)[i]? = some a ∧ a.key = key := by
  have hnone : Breach.all c = [] ↔ c.Sound := by
    rw [Contents.sound_iff, List.eq_nil_iff_forall_not_mem]
    simp only [Breach.mem_all]
  rw [parse_eq h]
  refine ⟨?_, fun d hd => ?_, fun problems hproblems => ?_, fun k i key name => Contents.Breaks.declaration⟩
  · rw [← hnone]
    split
    · next hall => simp [hall]
    · next hall => simp [hall]
  · split at hd
    · cases hd
      exact ⟨rfl, rfl, map_definition_fragments s c, map_origin_fragments s c⟩
    · cases hd
  · split at hproblems
    · cases hproblems
    · cases hproblems
      exact ⟨_, Breach.pairwise_all c, fun b => Breach.mem_all, rfl⟩

/-- An attribute of a key, as it stands in a document. -/
private def member (key : String) : String :=
  "\x7b\"key\":\"" ++ key ++ "\",\"type\":\"int\",\"brief\":\"One.\",\"examples\":[1],\"stability\":\"stable\"\x7d"

/-- A document with a version that is none, a group without a name, and a key in the wrong group. -/
private def scattered : Source :=
  ⟨"scattered.json", .json,
    "\x7b\"version\":\"one\",\"groups\":[\x7b\"namespace\":\" \",\"attributes\":[]\x7d,"
      ++ "\x7b\"namespace\":\"host\",\"attributes\":[" ++ member "host.id" ++ ","
      ++ member "hosts.id" ++ "]\x7d]\x7d"⟩

/-- The contexts of the problems a source has. -/
private def contexts (s : Source) : List (List String) :=
  match s.parse with
  | .ok _ => []
  | .error problems => problems.map Finding.context

/-- All three breaches of a document are reported; the well-placed declaration counts in the numbers. -/
theorem parse_exact_scattered : ∃ c, scattered.contents = .ok c ∧ ∃ breaches : List Breach,
    (∀ b, b ∈ breaches ↔ c.Breaks b) ∧
      scattered.parse = .error (breaches.map (Breach.finding "scattered.json")) ∧
      (breaches.map (Breach.finding "scattered.json")).map Finding.context =
        [[], [], ["declaration #1"]] := by
  have hcontexts : scattered.contexts = [[], [], ["declaration #1"]] := by
    decide +kernel
  rw [contexts] at hcontexts
  cases hc : scattered.contents with
  | error message =>
    -- without contents there is one problem only
    rw [parse, hc] at hcontexts
    cases hcontexts
  | ok c =>
    obtain ⟨-, -, herror, -⟩ := parse_exact hc
    cases hparse : scattered.parse with
    | ok d =>
      rw [hparse] at hcontexts
      cases hcontexts
    | error problems =>
      obtain ⟨breaches, -, hmem, rfl⟩ := herror problems hparse
      rw [hparse] at hcontexts
      exact ⟨c, rfl, breaches, hmem, rfl, hcontexts⟩

end Source

end AttributeRegistry
