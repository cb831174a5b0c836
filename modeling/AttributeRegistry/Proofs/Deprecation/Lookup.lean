import AttributeRegistry.Proofs.Deprecation.Graph
import AttributeRegistry.Proofs.Validation.Complete

/-!
# Looking up replacements

Following replacements from a key either ends at an attribute that refers to no other one, or leads out
of the registry, or goes on for ever. In a finite registry the last means that it comes to a cycle, and
this shows after as many steps as there are attributes (`cases_of_follow_eq_none`). So the lookup, which
takes one step more, is exact.

Main statement: `replacementFor_exact`.
-/

namespace AttributeRegistry.Registry

open Relation

/-- Following replacements from a key ends at an attribute. -/
inductive Ends (r : Registry) : String → Attribute → Prop where
  /-- An attribute that refers to no other one: it is not deprecated, or names no replacement. -/
  | here {a : Attribute} (ha : a ∈ r.attributes)
      (hlast : a.stability = .deprecated → a.deprecatedBy = none) : Ends r a.key a
  | next {a t : Attribute} {next : String} (ha : a ∈ r.attributes) (hdep : a.stability = .deprecated)
      (hby : a.deprecatedBy = some next) (h : Ends r next t) : Ends r a.key t

/-- Following replacements from a key comes to an attribute whose replacement is not registered. -/
def Strays (r : Registry) (key : String) : Prop :=
  ∃ a ∈ r.attributes, ReflTransGen r.Leads key a.key ∧ a.stability = .deprecated ∧
    ∃ next, a.deprecatedBy = some next ∧ next ∉ r.keys

/-- Following replacements from a key comes to a cycle. -/
def Circles (r : Registry) (key : String) : Prop :=
  ∃ c, r.IsCycle c ∧ ∃ k ∈ c, ReflTransGen r.Leads key k

variable {r : Registry} {key next : String} {a t : Attribute}

/-! ## Single steps -/

theorem follow_unregistered (h : key ∉ r.keys) (steps : Nat) : r.follow steps key = none := by
  have hget : r.get? key = none := by
    cases hget : r.get? key with
    | none => rfl
    | some a => exact absurd (mem_keys.mpr ⟨a, get?_eq_some_iff.mp hget⟩) h
  cases steps with
  | zero => rfl
  | succ steps => simp [follow, hget]

theorem follow_last (ha : a ∈ r.attributes) (hlast : a.stability = .deprecated → a.deprecatedBy = none)
    (steps : Nat) : r.follow (steps + 1) a.key = some a := by
  have hget : r.get? a.key = some a := get?_eq_some_iff.mpr ⟨ha, rfl⟩
  have hnone : a.replacement? = none := by
    by_cases hdep : a.stability = .deprecated
    · simp [Attribute.replacement?, hlast hdep]
    · simp [Attribute.replacement?, Attribute.isDeprecated, hdep]
  simp [follow, hget, hnone]

theorem follow_next (ha : a ∈ r.attributes) (hdep : a.stability = .deprecated)
    (hby : a.deprecatedBy = some next) (steps : Nat) :
    r.follow (steps + 1) a.key = r.follow steps next := by
  have hget : r.get? a.key = some a := get?_eq_some_iff.mpr ⟨ha, rfl⟩
  simp [follow, hget, Attribute.replacement?, Attribute.isDeprecated, hdep, hby]

/-- What following replacements may find at a key. -/
theorem follow_cases (r : Registry) (key : String) :
    key ∉ r.keys ∨ ∃ a ∈ r.attributes, a.key = key ∧
      ((a.stability = .deprecated → a.deprecatedBy = none) ∨
        a.stability = .deprecated ∧ ∃ next, a.deprecatedBy = some next) := by
  by_cases hkey : key ∈ r.keys
  · obtain ⟨a, ha, hkey⟩ := mem_keys.mp hkey
    refine .inr ⟨a, ha, hkey, ?_⟩
    cases hby : a.deprecatedBy with
    | none => exact .inl fun _ => rfl
    | some next =>
      by_cases hdep : a.stability = .deprecated
      · exact .inr ⟨hdep, next, rfl⟩
      · exact .inl fun h => absurd h hdep
  · exact .inl hkey

/-! ## Where following ends -/

theorem Ends.mem_keys (h : r.Ends key t) : key ∈ r.keys := by
  cases h with
  | here ha _ => exact Registry.mem_keys.mpr ⟨_, ha, rfl⟩
  | next ha _ _ _ => exact Registry.mem_keys.mpr ⟨_, ha, rfl⟩

theorem Ends.mem (h : r.Ends key t) : t ∈ r.attributes := by
  induction h with
  | here ha _ => exact ha
  | next _ _ _ _ ih => exact ih

/-- The attribute behind a deprecated one is where that one ends. -/
theorem Ends.of_next (h : r.Ends a.key t) (ha : a ∈ r.attributes) (hdep : a.stability = .deprecated)
    (hby : a.deprecatedBy = some next) : r.Ends next t := by
  generalize hkey : a.key = key at h
  cases h with
  | here hb hlast =>
    obtain rfl := eq_of_key_eq ha hb hkey
    rw [hlast hdep] at hby
    cases hby
  | next hb _ hby' hrest =>
    obtain rfl := eq_of_key_eq ha hb hkey
    rw [hby] at hby'
    cases hby'
    exact hrest

theorem Ends.of_reaches {goal : String} (h : r.Ends key t) (hreach : ReflTransGen r.Leads key goal) :
    r.Ends goal t := by
  induction hreach with
  | refl => exact h
  | tail _ hstep ih =>
    obtain ⟨a, ha, rfl, hdep, hby, -⟩ := hstep
    exact ih.of_next ha hdep hby

/-- An attribute that refers to no other one is where its key ends. -/
theorem Ends.eq_of_last (h : r.Ends a.key t) (ha : a ∈ r.attributes)
    (hlast : a.stability = .deprecated → a.deprecatedBy = none) : t = a := by
  generalize hkey : a.key = key at h
  cases h with
  | here hb _ => exact (eq_of_key_eq ha hb hkey).symm
  | next hb hdep hby _ =>
    obtain rfl := eq_of_key_eq ha hb hkey
    rw [hlast hdep] at hby
    cases hby

/-- A way has one end. -/
theorem Ends.unique {u : Attribute} (h : r.Ends key t) (hu : r.Ends key u) : t = u := by
  induction h with
  | here ha hlast => exact (hu.eq_of_last ha hlast).symm
  | next ha hdep hby _ ih => exact ih (hu.of_next ha hdep hby)

/-- A way that ends does not lead out of the registry. -/
theorem Ends.not_strays (h : r.Ends key t) : ¬ r.Strays key := by
  rintro ⟨a, ha, hreach, hdep, next, hby, hnext⟩
  exact hnext ((h.of_reaches hreach).of_next ha hdep hby).mem_keys

/-- A way that ends does not come to a cycle. -/
theorem Ends.not_circles (h : r.Ends key t) : ¬ r.Circles key := by
  rintro ⟨c, hc, k, hk, hreach⟩
  have hend := h.of_reaches hreach
  clear h hreach
  -- every key of the cycle leads to another one, but one of them would be the last
  induction hend with
  | here ha hlast =>
    obtain ⟨next, -, b, hb, hkey, hdep, hby, -⟩ := hc.exists_leads hk
    obtain rfl := eq_of_key_eq hb ha hkey
    rw [hlast hdep] at hby
    cases hby
  | next ha hdep hby hrest ih =>
    exact ih (hc.mem_of_leads hk ⟨_, ha, rfl, hdep, hby, hrest.mem_keys⟩)

/-! ## What following finds -/

theorem ends_of_follow {steps : Nat} (h : r.follow steps key = some t) : r.Ends key t := by
  induction steps generalizing key with
  | zero => cases h
  | succ steps ih =>
    rcases follow_cases r key with hkey | ⟨a, ha, rfl, hlast | ⟨hdep, next, hby⟩⟩
    · rw [follow_unregistered hkey] at h
      cases h
    · rw [follow_last ha hlast, Option.some.injEq] at h
      subst h
      exact .here ha hlast
    · rw [follow_next ha hdep hby] at h
      exact .next ha hdep hby (ih h)

/-- If following finds nothing within some steps, it has left the registry, or there are as many steps
to take. -/
theorem cases_of_follow_eq_none {steps : Nat} (hkey : key ∈ r.keys)
    (h : r.follow steps key = none) :
    r.Strays key ∨ ∃ s : List String, s.length = steps ∧ (key :: s).IsChain r.Leads := by
  induction steps generalizing key with
  | zero => exact .inr ⟨[], rfl, List.isChain_singleton key⟩
  | succ steps ih =>
    rcases follow_cases r key with hno | ⟨a, ha, rfl, hlast | ⟨hdep, next, hby⟩⟩
    · exact absurd hkey hno
    · rw [follow_last ha hlast] at h
      cases h
    · by_cases hnext : next ∈ r.keys
      · have hstep : r.Leads a.key next := ⟨a, ha, rfl, hdep, hby, hnext⟩
        rw [follow_next ha hdep hby] at h
        rcases ih hnext h with ⟨b, hb, hreach, hstray⟩ | ⟨s, hlength, hchain⟩
        · exact .inl ⟨b, hb, .head hstep hreach, hstray⟩
        · refine .inr ⟨next :: s, ?_, List.isChain_cons_cons.mpr ⟨hstep, hchain⟩⟩
          rw [List.length_cons, hlength]
      · exact .inl ⟨a, ha, .refl, hdep, next, hby, hnext⟩

/-- A way of as many steps as there are attributes comes to a cycle. -/
theorem circles_of_path {s : List String} (hkey : key ∈ r.keys)
    (hchain : (key :: s).IsChain r.Leads) (hlength : r.size ≤ s.length) : r.Circles key := by
  have hpairs : (key :: s).Pairwise (TransGen r.Leads) :=
    List.isChain_iff_pairwise.mp (hchain.imp fun _ _ => TransGen.single)
  have hreach : ∀ k ∈ s, TransGen r.Leads key k := (List.pairwise_cons.mp hpairs).1
  have hregistered : ∀ k ∈ key :: s, k ∈ r.keys := by
    refine List.forall_mem_cons.mpr ⟨hkey, fun k hk => ?_⟩
    cases hreach k hk with
    | single hstep => exact hstep.next_mem_keys
    | tail _ hstep => exact hstep.next_mem_keys
  -- there are more keys on the way than in the registry, so one of them is met twice
  have hloop : ∃ k ∈ key :: s, TransGen r.Leads k k := by
    by_contra hno
    have hnodup : (key :: s).Nodup := by
      refine hpairs.imp_of_mem fun {k l} hk _ hkl heq => hno ⟨k, hk, ?_⟩
      rwa [← heq] at hkl
    have hle := length_le_size hnodup hregistered
    rw [List.length_cons] at hle
    omega
  obtain ⟨k, hk, hloop⟩ := hloop
  obtain ⟨rest, hc⟩ := exists_isCycle_of_transGen hloop
  refine ⟨_, hc, k, Cycle.mem_coe_iff.mpr List.mem_cons_self, ?_⟩
  rcases List.mem_cons.mp hk with rfl | hk
  · exact .refl
  · exact (hreach k hk).to_reflTransGen

theorem replacementFor_eq_none_iff :
    r.replacementFor key = none ↔ key ∉ r.keys ∨ r.Strays key ∨ r.Circles key := by
  unfold replacementFor
  constructor
  · intro h
    by_cases hkey : key ∈ r.keys
    · rcases cases_of_follow_eq_none hkey h with hstrays | ⟨s, hlength, hchain⟩
      · exact .inr (.inl hstrays)
      · exact .inr (.inr (circles_of_path hkey hchain (by omega)))
    · exact .inl hkey
  · intro h
    cases hfollow : r.follow (r.size + 1) key with
    | none => rfl
    | some t =>
      have hends := ends_of_follow hfollow
      rcases h with hkey | hstrays | hcircles
      · exact absurd hends.mem_keys hkey
      · exact absurd hstrays hends.not_strays
      · exact absurd hcircles hends.not_circles

theorem replacementFor_eq_some_iff : r.replacementFor key = some t ↔ r.Ends key t := by
  constructor
  · exact ends_of_follow
  · intro h
    cases hfound : r.replacementFor key with
    | none =>
      rcases replacementFor_eq_none_iff.mp hfound with hkey | hstrays | hcircles
      · exact absurd h.mem_keys hkey
      · exact absurd hstrays h.not_strays
      · exact absurd hcircles h.not_circles
    | some u => rw [(ends_of_follow hfound).unique h]

/-! ## Valid registries -/

/-- In a well-formed registry a way ends where it begins, or one step further. -/
theorem WellFormed.exists_ends (hwf : r.WellFormed) (ha : a ∈ r.attributes) :
    ∃ t ∈ r.attributes, r.Ends a.key t ∧ t.stability ≠ .deprecated ∧
      (a.stability ≠ .deprecated → t = a) ∧ (a.stability = .deprecated → a.deprecatedBy = some t.key) := by
  have hself : ∀ {b}, b ∈ r.attributes → b.stability ≠ .deprecated → r.Ends b.key b :=
    fun hb hstable => .here hb fun hdep => absurd hdep hstable
  by_cases hdep : a.stability = .deprecated
  · obtain ⟨b, hb, hby, hstable⟩ := (hwf.replacements a ha).1 hdep
    exact ⟨b, hb, .next ha hdep hby (hself hb hstable), hstable, fun h => absurd hdep h, fun _ => hby⟩
  · exact ⟨a, ha, hself ha hdep, hdep, fun _ => rfl, fun h => absurd h hdep⟩

/-- **Looking up a replacement is exact**: it finds an attribute iff following replacements ends at it,
and finds none iff the key is not registered, or following leads out of the registry or to a cycle. In
a validated registry every registered key has a replacement, which is not deprecated: the attribute
itself or what it is deprecated in favour of, and its own replacement. -/
theorem replacementFor_exact (r : Registry) :
    (∀ key t, r.replacementFor key = some t ↔ r.Ends key t) ∧
    (∀ key, r.replacementFor key = none ↔ key ∉ r.keys ∨ r.Strays key ∨ r.Circles key) ∧
    ∀ prior strict v, r.validate prior strict = .ok v → ∀ a ∈ v.registry.attributes,
      ∃ t ∈ v.registry.attributes, v.registry.replacementFor a.key = some t ∧
        t.stability ≠ .deprecated ∧
        (a.stability ≠ .deprecated → t = a) ∧
        (a.stability = .deprecated → a.deprecatedBy = some t.key) ∧
        v.registry.replacementFor t.key = some t := by
  refine ⟨fun _ _ => replacementFor_eq_some_iff, fun _ => replacementFor_eq_none_iff, ?_⟩
  intro prior strict v hv a ha
  obtain ⟨t, ht, hends, hstable, hsame, hby⟩ := (wellFormed_of_validate hv).exists_ends ha
  have hself : v.registry.Ends t.key t := .here ht fun hdep => absurd hdep hstable
  exact ⟨t, ht, replacementFor_eq_some_iff.mpr hends, hstable, hsame, hby,
    replacementFor_eq_some_iff.mpr hself⟩

/-- An attribute that is deprecated in favour of another one. -/
private def renamed : Registry :=
  { version := .release 1 0 0
    entries :=
      [⟨(Attribute.new "media.song" (.primitive (.scalar .string)) "The title." [.text "Lithium"]).deprecatedInFavorOf
          "media.song.name", []⟩,
        ⟨Attribute.new "media.song.name" (.primitive (.scalar .string)) "The title." [.text "Lithium"], []⟩]
    ordered := by decide }

/-- Both keys have the attribute that is not deprecated as their replacement. -/
theorem replacementFor_renamed :
    ∃ v, renamed.validate [] false = .ok v ∧ ∀ a ∈ v.registry.attributes,
      ∃ t ∈ v.registry.attributes, v.registry.replacementFor a.key = some t ∧
        t.stability ≠ .deprecated ∧
        (a.stability ≠ .deprecated → t = a) ∧
        (a.stability = .deprecated → a.deprecatedBy = some t.key) ∧
        v.registry.replacementFor t.key = some t := by
  have hown : ∀ a ∈ renamed.attributes, ∀ f ∈ a.ownFindings, f.isError = false := by
    decide
  have hrule : ∀ a ∈ renamed.attributes, renamed.FollowsReplacementRule a := by
    decide
  have hwf : renamed.WellFormed :=
    ⟨fun a ha => Attribute.noErrors_ownFindings.mp (hown a ha), hrule, by decide⟩
  obtain ⟨v, hv⟩ := hwf.exists_validate
  exact ⟨v, hv, (replacementFor_exact renamed).2.2 [] false v hv⟩

end AttributeRegistry.Registry
