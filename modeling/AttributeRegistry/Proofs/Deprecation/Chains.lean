import AttributeRegistry.Proofs.Deprecation.Walks

/-!
# Every chain is found once

A key is in a chain if it is deprecated in favour of a registered key that is deprecated itself, unless
it is on a cycle. There is one finding for every such key (`forall₂_chains`), which shows the whole walk
from the key, and the key at its end if that is registered and not deprecated.

Following that advice removes the finding and changes no other finding about replacements.
-/

namespace AttributeRegistry.Registry

/-- A key is deprecated in favour of a registered key that is deprecated too, and is on no cycle. -/
def Chained (r : Registry) (key : String) : Prop :=
  (∃ next, r.Leads key next ∧ ∃ b ∈ r.attributes, b.key = next ∧ b.stability = .deprecated) ∧
    ¬ ∃ c, r.IsCycle c ∧ key ∈ c

/-- A registered key that is not deprecated. -/
def InUse (r : Registry) (key : String) : Prop :=
  ∃ a ∈ r.attributes, a.key = key ∧ a.stability ≠ .deprecated

instance (r : Registry) (key : String) : Decidable (r.InUse key) :=
  inferInstanceAs (Decidable (∃ a ∈ r.attributes, _))

/-- The line that advises to name another key. -/
def advice (key : String) : String :=
  "point deprecated_by at '" ++ key ++ "' instead"

/-- A finding shows the chain a key is in: the whole walk from the key, and the key to name instead if
the walk ends at one that is in use. -/
structure ShowsChain (r : Registry) (key : String) (f : Finding) : Prop where
  subject : f.subject = key
  message : ∃ next, r.Leads key next ∧
    f.message = "deprecated_by '" ++ next ++ "' is itself deprecated"
  path : ∃ rest last, r.IsWalk (key :: rest) last ∧
    f.context = ("chain: " ++ arrows (key :: (rest ++ [last]))) ::
      if r.InUse last then [advice last] else []

variable {r : Registry} {key next last : String}

/-! ## Findings -/

theorem mem_flatten_cycles : key ∈ r.cycles.flatten ↔ ∃ c, r.IsCycle c ∧ key ∈ c := by
  rw [List.mem_flatten]
  constructor
  · rintro ⟨ks, hks, hkey⟩
    obtain ⟨_, _, -, hc, -⟩ := mem_cycles.mp hks
    exact ⟨_, hc, Cycle.mem_coe_iff.mpr hkey⟩
  · rintro ⟨c, hc, hkey⟩
    obtain ⟨start, hleast⟩ := hc.exists_isLeast
    obtain ⟨rest, rfl⟩ := exists_coe_cons_of_mem hleast.1
    exact ⟨start :: rest, mem_cycles.mpr ⟨start, rest, rfl, hc, hleast⟩, Cycle.mem_coe_iff.mp hkey⟩

/-- A key in use leads nowhere. -/
theorem InUse.not_names (h : r.InUse key) : ¬ r.Names key next := by
  rintro ⟨a, ha, rfl, hdep, -⟩
  obtain ⟨b, hb, hkey, hstable⟩ := h
  obtain rfl := eq_of_key_eq hb ha hkey
  exact hstable hdep

/-- A key in use is on no cycle. -/
theorem InUse.not_mem_cycle (h : r.InUse key) : ¬ ∃ c, r.IsCycle c ∧ key ∈ c := by
  rintro ⟨c, hc, hkey⟩
  obtain ⟨next, -, hnext⟩ := hc.exists_leads hkey
  exact h.not_names (leads_iff.mp hnext).1

/-- The advice at the end of a walk. -/
theorem advice_eq (r : Registry) (last : String) :
    (match r.get? last with
      | some t => if !r.cycles.flatten.contains last && !t.isDeprecated
        then ["point deprecated_by at '" ++ last ++ "' instead"] else []
      | none => []) = if r.InUse last then [advice last] else [] := by
  by_cases huse : r.InUse last
  · obtain ⟨t, ht, hkey, hstable⟩ := id huse
    have hcycle : r.cycles.flatten.contains last = false := by
      rw [Bool.eq_false_iff, Ne, List.contains_iff_mem, mem_flatten_cycles]
      exact huse.not_mem_cycle
    rw [if_pos huse, get?_eq_some_iff.mpr ⟨ht, hkey⟩]
    dsimp only
    rw [hcycle, isDeprecated_eq_false_iff.mpr hstable]
    rfl
  · rw [if_neg huse]
    split
    · next t ht =>
      obtain ⟨ht, hkey⟩ := get?_eq_some_iff.mp ht
      have hdep : t.isDeprecated = true := by
        rw [← Bool.not_eq_false, isDeprecated_eq_false_iff]
        exact fun hstable => huse ⟨t, ht, hkey, hstable⟩
      rw [hdep, Bool.not_true, Bool.and_false]
      rfl
    · rfl

/-- **A deprecated attribute has a finding about a chain iff its key is in one.** -/
theorem chainFindings_cases {a : Attribute} (ha : a ∈ r.deprecated) :
    (r.Chained a.key ∧ ∃ f, r.chainFindings r.cycles.flatten a = [f] ∧ r.ShowsChain a.key f) ∨
      (¬ r.Chained a.key ∧ r.chainFindings r.cycles.flatten a = []) := by
  obtain ⟨hmem, hdep⟩ := mem_deprecated.mp ha
  unfold chainFindings
  split
  · next hcycle =>
    rw [List.contains_iff_mem, mem_flatten_cycles] at hcycle
    exact .inr ⟨fun h => h.2 hcycle, rfl⟩
  · next hcycle =>
    rw [List.contains_iff_mem, mem_flatten_cycles] at hcycle
    -- what the attribute is deprecated in favour of is registered iff its key leads somewhere
    have hleads : ∀ {b : Attribute}, a.deprecatedBy.bind r.get? = some b ↔
        b ∈ r.attributes ∧ r.Leads a.key b.key := by
      intro b
      rw [Option.bind_eq_some_iff]
      constructor
      · rintro ⟨next, hby, hget⟩
        obtain ⟨hb, rfl⟩ := get?_eq_some_iff.mp hget
        exact ⟨hb, a, hmem, rfl, hdep, hby, mem_keys.mpr ⟨b, hb, rfl⟩⟩
      · rintro ⟨hb, a', ha', hkey, -, hby, -⟩
        obtain rfl := eq_of_key_eq ha' hmem hkey
        exact ⟨b.key, hby, get?_eq_some_iff.mpr ⟨hb, rfl⟩⟩
    split
    · next hnone =>
      refine .inr ⟨?_, rfl⟩
      rintro ⟨⟨next, hnext, b, hb, rfl, -⟩, -⟩
      rw [hleads.mpr ⟨hb, hnext⟩] at hnone
      cases hnone
    · next b hsome =>
      obtain ⟨hb, hnext⟩ := hleads.mp hsome
      by_cases hbdep : b.stability = .deprecated
      · rw [if_neg (by simp [isDeprecated_iff.mpr hbdep])]
        refine .inl ⟨⟨⟨b.key, hnext, b, hb, rfl, hbdep⟩, hcycle⟩, _, rfl, rfl, ⟨b.key, hnext, rfl⟩, ?_⟩
        obtain ⟨rest, last, hwalk, hiswalk⟩ := exists_isWalk_walk (leads_iff.mp hnext).1
        refine ⟨rest, last, hiswalk, ?_⟩
        have hlast : (a.key :: (rest ++ [last])).getLast? = some last := by
          rw [← List.cons_append, List.getLast?_concat]
        dsimp only [Finding.new]
        rw [hwalk, hlast]
        exact congrArg _ (advice_eq r last)
      · rw [if_pos (by simp [isDeprecated_eq_false_iff.mpr hbdep])]
        refine .inr ⟨?_, rfl⟩
        rintro ⟨⟨next, hnext', c, hc, rfl, hcdep⟩, -⟩
        obtain rfl := eq_of_key_eq hb hc (hnext.unique hnext')
        exact hbdep hcdep

/-- A key in a chain is that of a deprecated attribute. -/
theorem Chained.exists_deprecated (h : r.Chained key) : ∃ a ∈ r.deprecated, a.key = key := by
  obtain ⟨⟨next, ⟨a, ha, hkey, hdep, -⟩, -⟩, -⟩ := h
  exact ⟨a, mem_deprecated.mpr ⟨ha, hdep⟩, hkey⟩

/-- The findings about chains are those of the deprecated attributes. -/
theorem withCode_chain : Report.withCode r.check .deprecationChain =
    r.deprecated.flatMap (r.chainFindings r.cycles.flatten) := by
  unfold check graphFindings
  rw [Report.withCode_append, Report.withCode_append, Report.withCode_append,
    Report.withCode_eq_nil within_attributes (by decide),
    Report.withCode_eq_nil (within_cycles _) (by decide), Report.withCode_eq_self (within_chains _),
    Report.withCode_eq_nil within_collisionFindings (by decide), List.nil_append, List.nil_append,
    List.append_nil]

/-- What is found about a chain is about a key in one, and shows it. -/
theorem showsChain_of_mem {f : Finding} (h : f ∈ Report.withCode r.check .deprecationChain) :
    r.Chained f.subject ∧ r.ShowsChain f.subject f := by
  rw [withCode_chain, List.mem_flatMap] at h
  obtain ⟨a, ha, hf⟩ := h
  rcases chainFindings_cases ha with ⟨hchained, g, hg, hshows⟩ | ⟨-, hnil⟩
  · rw [hg, List.mem_singleton] at hf
    subst hf
    rw [hshows.subject]
    exact ⟨hchained, hshows⟩
  · rw [hnil] at hf
    cases hf

/-- There is a finding about every key in a chain, and about no other one. -/
theorem exists_chain_finding_iff :
    (∃ f ∈ Report.withCode r.check .deprecationChain, f.subject = key) ↔ r.Chained key := by
  constructor
  · rintro ⟨f, hf, rfl⟩
    exact (showsChain_of_mem hf).1
  · intro h
    obtain ⟨a, ha, rfl⟩ := h.exists_deprecated
    rcases chainFindings_cases ha with ⟨-, f, hf, hshows⟩ | ⟨hnot, -⟩
    · refine ⟨f, ?_, hshows.subject⟩
      rw [withCode_chain, List.mem_flatMap]
      exact ⟨a, ha, by rw [hf]; exact List.mem_singleton.mpr rfl⟩
    · exact absurd h hnot

/-- **Every chain is found once.** -/
theorem forall₂_chains (r : Registry) : ∃ keys : List String, keys.Nodup ∧
    (∀ key, key ∈ keys ↔ r.Chained key) ∧
      List.Forall₂ r.ShowsChain keys (Report.withCode r.check .deprecationChain) := by
  have hsub : ((r.deprecated).map Attribute.key).Sublist r.keys := by
    rw [keys_eq, deprecated]
    exact List.filter_sublist.map _
  -- the keys of those deprecated attributes that have a finding
  have hall : ∀ as : List Attribute, as ⊆ r.deprecated →
      ∃ keys : List String, keys.Sublist (as.map Attribute.key) ∧
        (∀ key, key ∈ keys ↔ key ∈ as.map Attribute.key ∧ r.Chained key) ∧
          List.Forall₂ r.ShowsChain keys (as.flatMap (r.chainFindings r.cycles.flatten)) := by
    intro as
    induction as with
    | nil => exact fun _ => ⟨[], .slnil, by simp, .nil⟩
    | cons a as ih =>
      intro has
      obtain ⟨ha, has⟩ := List.cons_subset.mp has
      obtain ⟨keys, hkeys, hmem, hshows⟩ := ih has
      rw [List.flatMap_cons, List.map_cons]
      rcases chainFindings_cases ha with ⟨hchained, f, hf, hshow⟩ | ⟨hnot, hf⟩
      · refine ⟨a.key :: keys, hkeys.cons_cons _, fun key => ?_, ?_⟩
        · rw [List.mem_cons, List.mem_cons, hmem]
          constructor
          · rintro (rfl | ⟨hkey, hchained⟩)
            · exact ⟨.inl rfl, hchained⟩
            · exact ⟨.inr hkey, hchained⟩
          · rintro ⟨hkey, hchained⟩
            exact hkey.imp_right (⟨·, hchained⟩)
        · rw [hf]
          exact .cons hshow hshows
      · refine ⟨keys, hkeys.cons _, fun key => ?_, ?_⟩
        · rw [hmem, List.mem_cons]
          constructor
          · rintro ⟨hkey, hchained⟩
            exact ⟨.inr hkey, hchained⟩
          · rintro ⟨rfl | hkey, hchained⟩
            · exact absurd hchained hnot
            · exact ⟨hkey, hchained⟩
        · rw [hf]
          exact hshows
  obtain ⟨keys, hkeys, hmem, hshows⟩ := hall r.deprecated (List.Subset.refl _)
  refine ⟨keys, (hkeys.trans hsub).nodup r.nodup_keys, fun key => ?_, ?_⟩
  · rw [hmem]
    exact ⟨And.right, fun h => ⟨List.mem_map.mpr h.exists_deprecated, h⟩⟩
  · rw [withCode_chain]
    exact hshows

end AttributeRegistry.Registry
