import AttributeRegistry.Proofs.Deprecation.Cycles
import AttributeRegistry.Proofs.Validation.Replacement

/-!
# Walks

Following replacements from a key, registered or not, goes on until nothing follows or a key is met
again. From a key there is one such walk (`IsWalk.unique`). No walk is longer than the registry is
large, so the bound of `walk` never cuts one off (`exists_isWalk_walk`).
-/

namespace AttributeRegistry.Registry

/-- A key is deprecated in favour of another one, which may be registered or not. -/
def Names (r : Registry) (key next : String) : Prop :=
  ∃ a ∈ r.attributes, a.key = key ∧ a.stability = .deprecated ∧ a.deprecatedBy = some next

/-- Nothing follows a key: it is not registered, or not deprecated, or names no replacement. -/
def Stops (r : Registry) (key : String) : Prop :=
  key ∉ r.keys ∨
    ∃ a ∈ r.attributes, a.key = key ∧ (a.stability = .deprecated → a.deprecatedBy = none)

/-- A whole walk, the last key of which stands apart: each key names the one behind it, none is met
twice in front of the last one, and that one was met before or nothing follows it. -/
structure IsWalk (r : Registry) (front : List String) (last : String) : Prop where
  chain : (front ++ [last]).IsChain r.Names
  nodup : front.Nodup
  stops : last ∈ front ∨ r.Stops last

variable {r : Registry} {key next last : String}

/-! ## Single steps -/

theorem leads_iff : r.Leads key next ↔ r.Names key next ∧ next ∈ r.keys := by
  constructor
  · rintro ⟨a, ha, hkey, hdep, hby, hnext⟩
    exact ⟨⟨a, ha, hkey, hdep, hby⟩, hnext⟩
  · rintro ⟨⟨a, ha, hkey, hdep, hby⟩, hnext⟩
    exact ⟨a, ha, hkey, hdep, hby, hnext⟩

/-- A key names at most one key. -/
theorem Names.unique {other : String} (h : r.Names key next) (h' : r.Names key other) :
    next = other := by
  obtain ⟨a, ha, rfl, -, hby⟩ := h
  obtain ⟨b, hb, hkey, -, hby'⟩ := h'
  obtain rfl := eq_of_key_eq hb ha hkey
  rw [hby] at hby'
  exact Option.some.inj hby'

/-- Something follows a key that names one. -/
theorem Names.not_stops (h : r.Names key next) : ¬ r.Stops key := by
  obtain ⟨a, ha, rfl, hdep, hby⟩ := h
  rintro (hkey | ⟨b, hb, hkey, hlast⟩)
  · exact hkey (mem_keys.mpr ⟨a, ha, rfl⟩)
  · obtain rfl := eq_of_key_eq hb ha hkey
    rw [hlast hdep] at hby
    cases hby

theorem replacement?_eq_some_iff :
    (r.get? key).bind Attribute.replacement? = some next ↔ r.Names key next := by
  rw [Option.bind_eq_some_iff]
  simp only [get?_eq_some_iff, Attribute.replacement?]
  constructor
  · rintro ⟨a, ⟨ha, hkey⟩, h⟩
    split at h
    · next hdep => exact ⟨a, ha, hkey, isDeprecated_iff.mp hdep, h⟩
    · cases h
  · rintro ⟨a, ha, hkey, hdep, hby⟩
    exact ⟨a, ⟨ha, hkey⟩, by rw [if_pos (isDeprecated_iff.mpr hdep), hby]⟩

theorem replacement?_eq_none_iff :
    (r.get? key).bind Attribute.replacement? = none ↔ r.Stops key := by
  constructor
  · intro h
    by_cases hkey : key ∈ r.keys
    · obtain ⟨a, ha, hkey⟩ := mem_keys.mp hkey
      refine .inr ⟨a, ha, hkey, fun hdep => ?_⟩
      rw [get?_eq_some_iff.mpr ⟨ha, hkey⟩, Option.bind_some, Attribute.replacement?,
        if_pos (isDeprecated_iff.mpr hdep)] at h
      exact h
    · exact .inl hkey
  · intro h
    cases hnext : (r.get? key).bind Attribute.replacement? with
    | none => rfl
    | some next => exact absurd h (replacement?_eq_some_iff.mp hnext).not_stops

/-! ## Whole walks -/

/-- Of two ways from a key one goes on where the other one ends. -/
theorem prefix_or_prefix {s t : List String} (hs : (key :: s).IsChain r.Names)
    (ht : (key :: t).IsChain r.Names) : s <+: t ∨ t <+: s := by
  induction s generalizing key t with
  | nil => exact .inl List.nil_prefix
  | cons a s ih =>
    cases t with
    | nil => exact .inr List.nil_prefix
    | cons b t =>
      obtain ⟨ha, hs⟩ := List.isChain_cons_cons.mp hs
      obtain ⟨hb, ht⟩ := List.isChain_cons_cons.mp ht
      obtain rfl := ha.unique hb
      exact (ih hs ht).imp (List.cons_prefix_cons.mpr ⟨rfl, ·⟩) (List.cons_prefix_cons.mpr ⟨rfl, ·⟩)

/-- A whole walk does not go on. -/
theorem IsWalk.eq_of_prefix_isWalk {front other : List String} {last' : String} (h : r.IsWalk front last)
    (h' : r.IsWalk other last') (hbegins : front ++ [last] <+: other ++ [last']) :
    front ++ [last] = other ++ [last'] := by
  obtain ⟨more, hmore⟩ := hbegins
  rcases List.eq_nil_or_concat more with rfl | ⟨more, final, rfl⟩
  · rw [← hmore, List.append_nil]
  · exfalso
    rw [List.concat_eq_append, ← List.append_assoc] at hmore
    obtain ⟨hother, -⟩ := List.append_inj' hmore rfl
    -- the other walk meets `last` in front of its end, so `last` is new and names a key
    have hchain := h'.chain
    have hnodup := h'.nodup
    rw [← hmore, List.append_assoc] at hchain
    rw [← hother, List.append_assoc] at hnodup
    have hnew : last ∉ front := fun hmem =>
      (List.nodup_append.mp hnodup).2.2 last hmem last List.mem_cons_self rfl
    have hlast : ([last] ++ (more ++ [final])).IsChain r.Names := by
      rw [List.append_assoc] at hchain
      exact hchain.right_of_append
    obtain ⟨next, hnext⟩ : ∃ next, r.Names last next := by
      cases more with
      | nil => exact ⟨final, (List.isChain_cons_cons.mp hlast).1⟩
      | cons b more => exact ⟨b, (List.isChain_cons_cons.mp hlast).1⟩
    exact h.stops.elim hnew hnext.not_stops

/-- **From a key there is one whole walk.** -/
theorem IsWalk.unique {front other : List String} {last' : String} (h : r.IsWalk front last)
    (h' : r.IsWalk other last') (hhead : (front ++ [last]).head? = (other ++ [last']).head?) :
    front ++ [last] = other ++ [last'] := by
  obtain ⟨key, s, hs⟩ := List.exists_cons_of_ne_nil (List.concat_ne_nil last front)
  obtain ⟨key', t, ht⟩ := List.exists_cons_of_ne_nil (List.concat_ne_nil last' other)
  have hchain := h.chain
  have hchain' := h'.chain
  rw [hs, ht, List.head?_cons, List.head?_cons, Option.some.injEq] at hhead
  subst hhead
  rw [hs] at hchain
  rw [ht] at hchain'
  rcases prefix_or_prefix hchain hchain' with hbegins | hbegins
  · refine h.eq_of_prefix_isWalk h' ?_
    rw [hs, ht]
    exact List.cons_prefix_cons.mpr ⟨rfl, hbegins⟩
  · refine (h'.eq_of_prefix_isWalk h ?_).symm
    rw [hs, ht]
    exact List.cons_prefix_cons.mpr ⟨rfl, hbegins⟩

/-! ## What is walked -/

/-- A walk goes on from the registered keys it has met to a whole walk, if it may take more steps
than there are keys it has not met. -/
theorem exists_isWalk_append {steps : Nat} {met : List String} (hsteps : r.size < steps + met.length)
    (hchain : (met ++ [key]).IsChain r.Names) (hnodup : (met ++ [key]).Nodup)
    (hregistered : ∀ k ∈ met ++ [key], k ∈ r.keys) :
    ∃ front last, met ++ r.walk steps met key = front ++ [last] ∧ r.IsWalk front last := by
  induction steps generalizing met key with
  | zero =>
    have hle := length_le_size hnodup hregistered
    rw [List.length_append, List.length_singleton] at hle
    omega
  | succ steps ih =>
    rw [walk]
    cases hnext : (r.get? key).bind Attribute.replacement? with
    | none =>
      have hstops : r.Stops key := replacement?_eq_none_iff.mp hnext
      exact ⟨met, key, rfl, hchain, (List.nodup_append.mp hnodup).1, .inr hstops⟩
    | some next =>
      have hnames : r.Names key next := replacement?_eq_some_iff.mp hnext
      have hlonger : (met ++ [key] ++ [next]).IsChain r.Names := by
        rw [List.append_assoc]
        exact List.isChain_split.mpr ⟨hchain, List.isChain_pair.mpr hnames⟩
      dsimp only
      split
      · next hend =>
        refine ⟨met ++ [key], next, by simp, hlonger, hnodup, ?_⟩
        rw [Bool.or_eq_true, List.contains_iff_mem, Bool.not_eq_true', ← Bool.not_eq_true,
          contains_iff, ← mem_keys] at hend
        exact hend.imp_right .inl
      · next hgo =>
        rw [Bool.or_eq_true, not_or, List.contains_iff_mem, Bool.not_eq_true', Bool.not_eq_false,
          contains_iff, ← mem_keys] at hgo
        obtain ⟨hnew, hmem⟩ := hgo
        have hnodup' : (met ++ [key] ++ [next]).Nodup := by
          refine List.nodup_append.mpr ⟨hnodup, List.nodup_singleton next, ?_⟩
          rintro k hk l hl rfl
          exact hnew (List.mem_singleton.mp hl ▸ hk)
        have hregistered' : ∀ k ∈ met ++ [key] ++ [next], k ∈ r.keys := by
          refine List.forall_mem_append.mpr ⟨hregistered, fun k hk => ?_⟩
          rwa [List.mem_singleton.mp hk]
        have hsteps' : r.size < steps + (met ++ [key]).length := by
          rw [List.length_append, List.length_singleton]
          omega
        obtain ⟨front, last, heq, hwalk⟩ := ih hsteps' hlonger hnodup' hregistered'
        exact ⟨front, last, by rw [← heq]; simp, hwalk⟩

theorem head?_walk (r : Registry) (steps : Nat) (met : List String) (key : String) :
    (r.walk steps met key).head? = some key := by
  cases steps with
  | zero => rfl
  | succ steps =>
    rw [walk]
    split
    · rfl
    · split <;> rfl

/-- **Walking on from a key that names one is the whole walk.** -/
theorem exists_isWalk_walk (h : r.Names key next) :
    ∃ rest last, r.walk (r.size + 1) [] key = key :: (rest ++ [last]) ∧ r.IsWalk (key :: rest) last := by
  have hkey : key ∈ r.keys := by
    obtain ⟨a, ha, hkey, -⟩ := h
    exact mem_keys.mpr ⟨a, ha, hkey⟩
  have hsteps : r.size < r.size + 1 + ([] : List String).length := Nat.lt_succ_self r.size
  have hregistered : ∀ k ∈ [] ++ [key], k ∈ r.keys := by simpa using hkey
  obtain ⟨front, last, heq, hwalk⟩ := exists_isWalk_append hsteps (List.isChain_singleton key)
    (List.nodup_singleton key) hregistered
  have hhead := head?_walk r (r.size + 1) [] key
  rw [List.nil_append] at heq
  rw [heq] at hhead ⊢
  cases front with
  | nil =>
    -- a walk of one key stops there, but this one names another key
    obtain rfl : last = key := Option.some.inj hhead
    exact absurd (hwalk.stops.resolve_left List.not_mem_nil) h.not_stops
  | cons k rest =>
    obtain rfl : k = key := Option.some.inj hhead
    exact ⟨rest, last, rfl, hwalk⟩

end AttributeRegistry.Registry
