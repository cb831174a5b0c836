import AttributeRegistry.Proofs.Validation.Codes
import AttributeRegistry.Proofs.Validation.Complete
import Mathlib.Data.List.Forall2

/-!
# Constants that several keys have

A constant collides if two keys have it (`Shared`). Each such constant has one collision, with the keys
that have it in increasing order (`mem_collisions`), and no collision is without keys. So a collision is
reported at the least of its keys (`reportsShared_collisionFindings`), and nothing is reported iff no two keys
share a constant.

Main statement: `collisions_exact`.
-/

namespace AttributeRegistry

namespace Codegen

open Ordered

variable {keys sharers : List String} {name : String}

/-- Two of the keys have a constant. -/
def Shared (keys : List String) (name : String) : Prop :=
  ∃ k ∈ keys, ∃ l ∈ keys, k ≠ l ∧ constantName k = name ∧ constantName l = name

/-- Those of the keys that have a constant, in increasing order. -/
structure Sharers (keys : List String) (name : String) (sharers : List String) : Prop where
  ascending : sharers.Pairwise fun k l => compare k l = .lt
  mem : ∀ k, k ∈ sharers ↔ k ∈ keys ∧ constantName k = name

theorem Sharers.unique {others : List String} (h : Sharers keys name sharers)
    (h' : Sharers keys name others) : sharers = others :=
  eq_of_pairwise_lt h.ascending h'.ascending fun k => (h.mem k).trans (h'.mem k).symm

theorem sharers_sortStrings (h : keys.Nodup) (name : String) :
    Sharers keys name (sortStrings (keys.filter fun key => constantName key = name)) := by
  refine ⟨pairwise_sort_of_nodup (h.filter _), fun k => ?_⟩
  rw [sortStrings, mem_sort, List.mem_filter, decide_eq_true_eq]

/-- A constant is shared iff more than one of the keys has it. -/
theorem one_lt_length_iff (h : keys.Nodup) :
    1 < (keys.filter fun key => constantName key = name).length ↔ Shared keys name := by
  rw [← Nat.not_le, length_le_one_iff_of_nodup (h.filter _)]
  constructor
  · intro hne
    push Not at hne
    obtain ⟨k, hk, l, hl, hkl⟩ := hne
    simp only [List.mem_filter, decide_eq_true_eq] at hk hl
    exact ⟨k, hk.1, l, hl.1, hkl, hk.2, hl.2⟩
  · rintro ⟨k, hk, l, hl, hkl, hkname, hlname⟩ hall
    exact hkl (hall k (by simp [hk, hkname]) l (by simp [hl, hlname]))

/-- **The collisions of keys** are the constants that two of them have, each with all keys that have
it. -/
theorem mem_collisions (h : keys.Nodup) :
    (name, sharers) ∈ collisions keys ↔ Shared keys name ∧ Sharers keys name sharers := by
  rw [collisions, List.mem_filterMap]
  dsimp only
  constructor
  · rintro ⟨other, -, hsome⟩
    split at hsome
    · next hlt =>
      cases hsome
      exact ⟨(one_lt_length_iff h).mp hlt, sharers_sortStrings h name⟩
    · cases hsome
  · rintro ⟨hshared, hsharers⟩
    obtain ⟨k, hk, -, -, -, hkname, -⟩ := id hshared
    refine ⟨name, ?_, ?_⟩
    · rw [mem_distinct, ← hkname]
      exact List.mem_map_of_mem hk
    · rw [if_pos ((one_lt_length_iff h).mpr hshared), hsharers.unique (sharers_sortStrings h name)]

theorem map_fst_collisions (keys : List String) :
    (collisions keys).map Prod.fst = (distinct compare (keys.map constantName)).filter fun name =>
      1 < (keys.filter fun key => constantName key = name).length := by
  rw [collisions, List.map_filterMap, ← List.filterMap_eq_filter]
  refine List.filterMap_congr fun name _ => ?_
  rw [Option.guard]
  dsimp only
  split
  · next hlt => simp [hlt]
  · next hle => simp [hle]

/-- There is one collision for each constant, in the order of the constants. -/
theorem pairwise_collisions (keys : List String) :
    ((collisions keys).map Prod.fst).Pairwise fun a b => compare a b = .lt := by
  rw [map_fst_collisions]
  exact (pairwise_distinct _).sublist List.filter_sublist

/-- Two keys or more are in a collision. -/
theorem Sharers.two_le_length (h : Sharers keys name sharers) (hshared : Shared keys name) :
    2 ≤ sharers.length := by
  obtain ⟨k, hk, l, hl, hkl, hkname, hlname⟩ := hshared
  have hkmem : k ∈ sharers := (h.mem k).mpr ⟨hk, hkname⟩
  have hlmem : l ∈ sharers := (h.mem l).mpr ⟨hl, hlname⟩
  match sharers, hkmem, hlmem with
  | [_], hkmem, hlmem =>
    exact absurd ((List.mem_singleton.mp hkmem).trans (List.mem_singleton.mp hlmem).symm) hkl
  | _ :: _ :: rest, _, _ => simp

end Codegen

namespace Registry

open Codegen Ordered

variable {r : Registry}

/-- The finding of a shared constant is about the least of the keys that have it. -/
def ReportsShared (keys : List String) (name : String) (f : Finding) : Prop :=
  ∃ least rest, Sharers keys name (least :: rest) ∧
    f = .new least .constantNameCollision
      ("keys " ++ Text.commaList (least :: rest) ++ " all generate the constant " ++ name)
      ["rename one of the keys"]

/-- Every collision is reported. -/
theorem reportsShared_collisionFindings (r : Registry) :
    List.Forall₂ (ReportsShared r.keys) ((collisions r.keys).map Prod.fst) r.collisionFindings := by
  have hall : ∀ entry ∈ collisions r.keys, Sharers r.keys entry.1 entry.2 ∧ entry.2 ≠ [] := by
    rintro ⟨name, sharers⟩ hentry
    obtain ⟨hshared, hsharers⟩ := (mem_collisions r.nodup_keys).mp hentry
    have hlength := hsharers.two_le_length hshared
    refine ⟨hsharers, ?_⟩
    rintro rfl
    simp at hlength
  rw [collisionFindings]
  generalize collisions r.keys = entries at hall ⊢
  induction entries with
  | nil => exact .nil
  | cons entry entries ih =>
    obtain ⟨name, sharers⟩ := entry
    obtain ⟨⟨hsharers, hne⟩, hrest⟩ := List.forall_mem_cons.mp hall
    obtain ⟨least, rest, rfl⟩ := List.exists_cons_of_ne_nil hne
    exact .cons ⟨least, rest, hsharers, rfl⟩ (ih hrest)

/-- The findings about constants are those of the collisions. -/
theorem withCode_constantNameCollision :
    Report.withCode r.check .constantNameCollision = r.collisionFindings := by
  unfold check graphFindings
  rw [Report.withCode_append, Report.withCode_append, Report.withCode_append,
    Report.withCode_eq_nil within_attributes (by decide),
    Report.withCode_eq_nil (within_cycles _) (by decide),
    Report.withCode_eq_nil (within_chains _) (by decide),
    Report.withCode_eq_self within_collisionFindings, List.nil_append]
  rfl

/-- **Collisions are exact.** Of distinct keys, in whatever order, each constant that two of them have is
listed once, with all keys that have it in increasing order, and nothing else is listed. So no entry is
without keys, the checks report each shared constant of a registry once and at the least of its keys, and
they report none iff no two keys share a constant. -/
theorem collisions_exact :
    (∀ keys : List String, keys.Nodup →
      ((collisions keys).map Prod.fst).Pairwise (fun a b => compare a b = .lt) ∧
      (∀ name, (∃ sharers, (name, sharers) ∈ collisions keys) ↔ Shared keys name) ∧
      ∀ name sharers, (name, sharers) ∈ collisions keys →
        2 ≤ sharers.length ∧ Sharers keys name sharers) ∧
    ∀ r : Registry,
      (∃ names, names.Pairwise (fun a b => compare a b = .lt) ∧
        (∀ name, name ∈ names ↔ Shared r.keys name) ∧
        List.Forall₂ (ReportsShared r.keys) names (Report.withCode r.check .constantNameCollision)) ∧
      (Report.withCode r.check .constantNameCollision = [] ↔
        ∀ k ∈ r.keys, ∀ l ∈ r.keys, constantName k = constantName l → k = l) := by
  have hshared : ∀ {keys : List String}, keys.Nodup →
      ∀ name, (∃ sharers, (name, sharers) ∈ collisions keys) ↔ Shared keys name := by
    intro keys h name
    constructor
    · rintro ⟨sharers, hmem⟩
      exact ((mem_collisions h).mp hmem).1
    · intro hname
      exact ⟨_, (mem_collisions h).mpr ⟨hname, sharers_sortStrings h name⟩⟩
  refine ⟨fun keys h => ⟨pairwise_collisions keys, hshared h, fun name sharers hmem => ?_⟩,
    fun r => ⟨⟨_, pairwise_collisions r.keys, fun name => ?_, ?_⟩, ?_⟩⟩
  · obtain ⟨hname, hsharers⟩ := (mem_collisions h).mp hmem
    exact ⟨hsharers.two_le_length hname, hsharers⟩
  · rw [← hshared r.nodup_keys]
    simp
  · rw [withCode_constantNameCollision]
    exact reportsShared_collisionFindings r
  · rw [withCode_constantNameCollision, collisionFindings_eq_nil_iff]

/-- Keys of which two constants are made, one of them of three keys. -/
private def songs : List String :=
  ["media.song_name", "user.id", "media.song.name", "media.song-name"]

/-- The one collision of those keys, which are not in order. -/
theorem collisions_exact_songs :
    songs.Nodup ∧ Shared songs "MEDIA_SONG_NAME" ∧
    ((collisions songs).map Prod.fst).Pairwise (fun a b => compare a b = .lt) ∧
    ∃ sharers, ("MEDIA_SONG_NAME", sharers) ∈ collisions songs ∧ 2 ≤ sharers.length ∧
      Sharers songs "MEDIA_SONG_NAME" sharers ∧
      sharers = ["media.song-name", "media.song.name", "media.song_name"] := by
  have hnodup : songs.Nodup := by
    decide
  have hname : Shared songs "MEDIA_SONG_NAME" :=
    ⟨"media.song_name", by decide, "media.song-name", by decide, by decide, by decide,
      by decide⟩
  obtain ⟨hordered, hshared, hsharers⟩ := collisions_exact.1 songs hnodup
  obtain ⟨sharers, hmem⟩ := (hshared _).mpr hname
  obtain ⟨hlength, hsharers⟩ := hsharers _ _ hmem
  have hthree : Sharers songs "MEDIA_SONG_NAME"
      ["media.song-name", "media.song.name", "media.song_name"] := by
    refine ⟨by decide, fun k => ?_⟩
    have hall : ∀ k ∈ songs, k ∈ ["media.song-name", "media.song.name", "media.song_name"] ↔
        constantName k = "MEDIA_SONG_NAME" := by
      decide
    have hsub : ["media.song-name", "media.song.name", "media.song_name"] ⊆ songs := by
      decide
    constructor
    · intro hk
      exact ⟨hsub hk, (hall k (hsub hk)).mp hk⟩
    · rintro ⟨hk, hkname⟩
      exact (hall k hk).mpr hkname
  exact ⟨hnodup, hname, hordered, sharers, hmem, hlength, hsharers, hsharers.unique hthree⟩

end Registry

end AttributeRegistry
