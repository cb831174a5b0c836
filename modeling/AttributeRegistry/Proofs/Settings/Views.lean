import AttributeRegistry.Proofs.Settings.Inverted
import AttributeRegistry.Settings.Order

/-!
# What is to be seen of settings

Of a value is to be seen, at the end of any names, whether nothing is there, a table, or a value that is
none (`view`); the order of the entries of a table is not to be seen. A change at one place is seen
there only (`view_alter_cons`), so of changes at places apart it does not matter which is made first
(`view_alter_alter`).

Main statement: what is read by a shape is to be seen (`readSetting_congr`).
-/

namespace AttributeRegistry

open Setting

variable {α β ρ σ : Type}

namespace Setting

/-- A value that is no table. -/
def head? : Setting → Option Setting
  | table _ _ => none
  | v => some v

/-- What is to be seen at the end of some names. -/
def view (part : Option Setting) (path : List String) : Option (Option Setting) :=
  (part.bind (at? path)).map head?

variable {t u v : Setting} {part part' : Option Setting} {name : String}

theorem view_nil (part : Option Setting) : view part [] = part.map head? := by
  cases part <;> rfl

theorem view_cons (part : Option Setting) (name : String) (path : List String) :
    view part (name :: path) = view (part.bind (·.get? name)) path := by
  unfold view
  rw [Option.bind_assoc]
  rfl

theorem view_get? (h : view (some t) = view (some u)) (name : String) :
    view (t.get? name) = view (u.get? name) := by
  funext path
  have hpath := congrFun h (name :: path)
  rwa [view_cons, view_cons] at hpath

/-- What is seen at the place itself: the same value, or a table in both. -/
theorem head?_eq_of_view (h : view (some t) = view (some u)) : t.head? = u.head? := by
  have hnil := congrFun h []
  rw [view_nil, view_nil] at hnil
  exact Option.some.inj hnil

theorem eq_or_tables_of_view (h : view (some t) = view (some u)) :
    t = u ∨ ∃ o es o' es', t = table o es ∧ u = table o' es' := by
  have hhead := head?_eq_of_view h
  cases t with
  | table o es =>
    cases u with
    | table o' es' => exact .inr ⟨o, es, o', es', rfl, rfl⟩
    | _ => cases hhead
  | _ =>
    cases u with
    | table o' es' => cases hhead
    | _ => exact .inl (Option.some.inj hhead)

theorem isSome_of_view (h : view part = view part') : part.isSome = part'.isSome := by
  have hnil := congrArg Option.isSome (congrFun h [])
  rwa [view_nil, view_nil, Option.isSome_map, Option.isSome_map] at hnil

/-- Of parts that look the same both are there, or neither is. -/
theorem parts_of_view (h : view part = view part') :
    part = none ∧ part' = none ∨ ∃ t u, part = some t ∧ part' = some u := by
  have hsome := isSome_of_view h
  cases part with
  | none =>
    cases part' with
    | none => exact .inl ⟨rfl, rfl⟩
    | some u => cases hsome
  | some t =>
    cases part' with
    | none => cases hsome
    | some u => exact .inr ⟨t, u, rfl, rfl⟩

/-! ## Changes -/

/-- A change whose result is to be seen from what is to be seen before. -/
def Respects (write : Option Setting → Setting) : Prop :=
  ∀ part part', view part = view part' → view (some (write part)) = view (some (write part'))

variable {write write' : Option Setting → Setting}

end Setting

/-! ## Reading -/

mutual

/-- What a shape reads does not depend on the order in which a table has its entries. -/
def Shape.Unordered : {α : Type} → Shape α → Prop
  | _, .optional s => s.Unordered
  | _, .untagged .. => False
  | _, .record _ strict fields _ => strict = false ∧ fields.names.Nodup ∧ fields.Unordered
  | _, _ => True

/-- None of some fields has a shape that depends on the order of entries. -/
def Fields.Unordered : {ρ σ : Type} → Fields ρ σ → Prop
  | _, _, .nil => True
  | _, _, .cons _ _ s rest => s.Unordered ∧ rest.Unordered

end

namespace Setting

variable {t u : Setting}

/-- A table with one entry is seen to have one. -/
theorem exists_eq_singleton_of_view {o o' : Option String} {es : List (String × Setting)}
    {name : String} {v : Setting} (hnodup : (es.map Prod.fst).Nodup)
    (h : view (some (table o [(name, v)])) = view (some (table o' es))) : ∃ w, es = [(name, w)] := by
  have hnames : ∀ n, n ∈ es.map Prod.fst ↔ n ∈ [name] := by
    intro n
    have hsome := isSome_of_view (view_get? h n)
    rw [isSome_get?, isSome_get?] at hsome
    rw [← List.contains_iff_mem, ← List.contains_iff_mem]
    exact (congrArg (· = true) hsome.symm).to_iff
  have hone := List.perm_singleton.mp
    ((List.perm_ext_iff_of_nodup hnodup (List.pairwise_singleton _ name)).mpr hnames)
  match es, hone with
  | [(_, w)], rfl => exact ⟨w, rfl⟩

theorem Tidy.isTable {o : Option String} {es : List (String × Setting)} (h : (table o es).Tidy) :
    (table o es).IsTable :=
  ⟨o, es, rfl, h [] _ rfl⟩

mutual

/-- **What is read by a shape is to be seen**: of two values that look the same, both read as the same
or neither does. -/
theorem readSetting_congr : {α : Type} → (s : Shape α) → s.Unordered → {t u : Setting} → t.Tidy →
    u.Tidy → view (some t) = view (some u) → {a : α} → s.readSetting t = .ok a →
      s.readSetting u = .ok a
  | _, s, hs, t, u, ht, hu, hview, a, h => by
    obtain rfl | ⟨o, es, o', es', rfl, rfl⟩ := eq_or_tables_of_view hview
    · exact h
    cases s with
    | text | flag | list => cases h
    | parsed => cases h
    | optional s =>
      obtain ⟨b, rfl, hb⟩ := exists_of_readSetting_optional (by simp) h
      have hread := readSetting_congr s hs ht hu hview hb
      rw [Shape.readSetting.eq_def]
      dsimp only
      rw [hread]
      rfl
    | choice choice options =>
      -- only a table with one entry stands for one of the names
      match es, hview, h with
      | [], _, h | _ :: _ :: _, _, h => cases h
      | [(name, v)], hview, h =>
        obtain ⟨w, rfl⟩ := exists_eq_singleton_of_view (hu [] _ rfl) hview
        exact h
    | untagged => exact hs.elim
    | record name strict fields make =>
      obtain ⟨rfl, hnames, hfields⟩ := hs
      obtain ⟨r, rfl, hpicks⟩ := picks_of_readSetting_table hnames (ht [] _ rfl) h
      exact readSetting_record hnames hu.isTable
        (picks_congr fields hfields (fun n v => ht.of_get?) (fun n v => hu.of_get?) (view_get? hview) hpicks)

/-- Fields pick the same from values that look the same. -/
theorem picks_congr : {ρ σ : Type} → (fields : Fields ρ σ) → fields.Unordered →
    {look look' : String → Option Setting} → (∀ name v, look name = some v → v.Tidy) →
      (∀ name v, look' name = some v → v.Tidy) → (∀ name, view (look name) = view (look' name)) →
        {r : ρ} → fields.Picks look r → fields.Picks look' r
  | _, _, .nil, _, _, _, _, _, _, (), h => h
  | _, _, .cons name fallback s rest, hfields, look, look', hlook, hlook', hview, (a, as), h => by
    refine ⟨?_, picks_congr rest hfields.2 hlook hlook' hview h.2⟩
    have hfirst := h.1
    have hname := hview name
    unfold Shape.Picks at hfirst ⊢
    obtain ⟨hv, hv'⟩ | ⟨v, v', hv, hv'⟩ := parts_of_view hname
    · rw [hv] at hfirst
      rw [hv']
      exact hfirst
    · rw [hv] at hfirst hname
      rw [hv'] at hname ⊢
      exact readSetting_congr s hfields.1 (hlook name v hv) (hlook' name v' hv') hname hfirst

end

end Setting

end AttributeRegistry
