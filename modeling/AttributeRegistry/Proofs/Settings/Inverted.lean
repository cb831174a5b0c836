import AttributeRegistry.Proofs.Settings.Reading
import AttributeRegistry.Settings.Load

/-!
# What loaded settings were read from

Putting layers one over the other never makes a table that has a name twice (`tidy_layered`). From such
a table a record reads only if each of its fields does, from the value under its name
(`picks_of_readSetting`). So if settings are loaded, whatever stands at the path of one of them reads as
this setting (`get_of_readSetting`).
-/

namespace AttributeRegistry

open Settings Setting

variable {α β ε ρ σ : Type}

/-! ## What went before a result -/

theorem exists_of_bind_eq_ok {x : Except ε α} {f : α → Except ε β} {b : β} (h : x >>= f = .ok b) :
    ∃ a, x = .ok a ∧ f a = .ok b := by
  cases x with
  | error e => cases h
  | ok a => exact ⟨a, rfl, h⟩

theorem eq_ok_of_mapError {ε' : Type} {x : Except ε α} {g : ε → ε'} {a : α}
    (h : x.mapError g = .ok a) : x = .ok a := by
  cases x with
  | error e => cases h
  | ok b => exact congrArg Except.ok (Except.ok.inj h)

theorem bind_eq_ok_iff {x : Except ε α} {f : α → Except ε β} {b : β} :
    x >>= f = .ok b ↔ ∃ a, x = .ok a ∧ f a = .ok b := by
  refine ⟨exists_of_bind_eq_ok, ?_⟩
  rintro ⟨a, rfl, h⟩
  exact h

theorem mapError_eq_ok_iff {ε' : Type} {x : Except ε α} {g : ε → ε'} {a : α} :
    x.mapError g = .ok a ↔ x = .ok a := by
  refine ⟨eq_ok_of_mapError, ?_⟩
  rintro rfl
  rfl

/-! ## Tables without repetitions -/

namespace Setting

/-- No part that names lead to has a name twice. -/
def Tidy (t : Setting) : Prop :=
  ∀ path u, t.at? path = some u → (u.entries.map Prod.fst).Nodup

variable {t u v : Setting} {name : String}

theorem tidy_of_entries_eq_nil (h : t.entries = []) : t.Tidy := by
  intro path u hu
  cases path with
  | nil =>
    obtain rfl := Option.some.inj hu
    rw [h]
    exact List.nodup_nil
  | cons name path =>
    rw [at?, get?, h] at hu
    cases hu

theorem Tidy.of_get? (h : t.Tidy) (hu : t.get? name = some u) : u.Tidy := by
  intro path w hw
  refine h (name :: path) w ?_
  rw [at?, hu]
  exact hw

theorem tidy_getD {part : Option Setting} (h : ∀ u, part = some u → u.Tidy) (hv : v.Tidy) :
    (part.getD v).Tidy := by
  cases part with
  | none => exact hv
  | some u => exact h u rfl

theorem Tidy.getD (h : t.Tidy) (hv : v.Tidy) (name : String) : ((t.get? name).getD v).Tidy :=
  tidy_getD (fun _ => h.of_get?) hv

theorem entries_set (t : Setting) (name : String) (v : Setting) :
    (t.set name v).entries = store name v t.entries := by
  cases t <;> rfl

theorem Tidy.set (h : t.Tidy) (hv : v.Tidy) (name : String) : (t.set name v).Tidy := by
  intro path u hu
  cases path with
  | nil =>
    obtain rfl := Option.some.inj hu
    obtain ⟨origin, es, heq, hnodup⟩ := IsTable.set ⟨none, t.entries, rfl, h [] t rfl⟩ name v
    cases heq
    rwa [entries_set]
  | cons first path =>
    by_cases hfirst : first = name
    · rw [hfirst, at?_cons_set_self] at hu
      exact hv path u hu
    · rw [at?_cons_set_of_ne hfirst] at hu
      exact h _ u hu

mutual

/-- Putting a value under a name makes no repetition. -/
theorem Tidy.put : ∀ {t : Setting} (v : Setting) (name : String), t.Tidy → (t.put name v).Tidy
  | t, .table o es, name, h => by
    rw [Setting.put]
    exact h.set (Tidy.putAll es (h.getD (tidy_of_entries_eq_nil rfl) (fold name))) (fold name)
  | t, .absent, name, h | t, .flag .., name, h | t, .int .., name, h | t, .float .., name, h
  | t, .text .., name, h | t, .list .., name, h => h.set (tidy_of_entries_eq_nil rfl) (fold name)

/-- Putting entries into a table makes no repetition. -/
theorem Tidy.putAll : ∀ {t : Setting} (es : List (String × Setting)), t.Tidy → (t.putAll es).Tidy
  | t, [], h => h
  | t, (name, v) :: es, h => by
    rw [Setting.putAll]
    exact Tidy.putAll es (Tidy.put v name h)

end

theorem tidy_setItem (t : Setting) (i : Nat) (v : Setting) : (t.setItem i v).Tidy :=
  tidy_of_entries_eq_nil rfl

theorem Tidy.change {f : Setting → Setting} (hf : ∀ part, part.Tidy → (f part).Tidy)
    (steps : List Step) (h : t.Tidy) : (change f steps t).Tidy := by
  induction steps generalizing t with
  | nil => exact hf t h
  | cons step steps ih =>
    cases step with
    | name s => exact h.set (ih (h.getD (tidy_of_entries_eq_nil rfl) (fold s))) (fold s)
    | index i => exact tidy_setItem _ _ _

theorem Tidy.putAt (h : t.Tidy) (steps : List Step) (last : Step) (v : Setting) :
    (t.putAt steps last v).Tidy := by
  refine h.change (fun part hpart => ?_) steps
  cases last with
  | name s => exact hpart.put v s
  | index i => exact tidy_setItem _ _ _

theorem Tidy.putLayer {layer : List (String × Setting)} (h : t.Tidy) : (t.putLayer layer).Tidy := by
  unfold Setting.putLayer
  induction layer generalizing t with
  | nil => exact h
  | cons e layer ih =>
    obtain ⟨name, v⟩ := e
    rw [List.foldl_cons]
    refine ih ?_
    dsimp only
    split
    · exact h.putAt _ _ v
    · exact h.put v name

theorem tidy_foldl_putLayer (layers : List (List (String × Setting))) (h : t.Tidy) :
    (layers.foldl Setting.putLayer t).Tidy := by
  induction layers generalizing t with
  | nil => exact h
  | cons layer layers ih => exact ih h.putLayer

end Setting

/-- **What the layers make together has no name twice.** -/
theorem Workspace.tidy_layered {w : Workspace} {named : Option String} {t : Setting}
    (h : w.layered named = .ok t) : t.Tidy := by
  obtain ⟨layers, -, hlayers⟩ := exists_of_bind_eq_ok h
  cases hlayers
  exact tidy_foldl_putLayer _ (tidy_of_entries_eq_nil rfl)

/-! ## Records -/

/-- A slot holds what is read from the value that is found, and nothing if none is. -/
def Shape.Fills (s : Shape α) (found : Option Setting) (slot : Option α) : Prop :=
  match found with
  | some v => ∃ a, slot = some a ∧ s.readSetting v = .ok a
  | none => slot = none

namespace Fields

/-- The slots of some fields hold what is read from the values found under their names. -/
def Filled : {ρ σ : Type} → Fields ρ σ → (String → Option Setting) → σ → Prop
  | _, _, .nil, _, () => True
  | _, _, .cons name _ s rest, look, (slot, slots) =>
    s.Fills (look name) slot ∧ rest.Filled look slots

theorem filled_congr {look look' : String → Option Setting} : {ρ σ : Type} → (fields : Fields ρ σ) →
    (slots : σ) → (∀ name ∈ fields.names, look name = look' name) → fields.Filled look slots →
      fields.Filled look' slots
  | _, _, .nil, (), _, _ => trivial
  | _, _, .cons name _ s rest, (slot, slots), heq, h => by
    obtain ⟨hname, hrest⟩ := List.forall_mem_cons.mp heq
    exact ⟨hname ▸ h.1, filled_congr rest slots hrest h.2⟩

theorem filled_empty : {ρ σ : Type} → (fields : Fields ρ σ) →
    fields.Filled (fun _ => none) fields.empty
  | _, _, .nil => trivial
  | _, _, .cons _ _ _ rest => ⟨rfl, filled_empty rest⟩

/-- An entry that is read fills the slot of its name. -/
theorem Filled.entry {look : String → Option Setting} {name : String} {v : Setting} {strict : Bool}
    {known : List String} : {ρ σ : Type} → (fields : Fields ρ σ) → {slots slots' : σ} →
      fields.names.Nodup → fields.Filled look slots →
        fields.readSettingEntry strict known name v slots = .ok slots' →
          fields.Filled (fun n => if n = name then some v else look n) slots'
  | _, _, .nil, (), (), _, _, _ => trivial
  | _, _, .cons first _ s rest, (slot, slots), slots', hnames, h, hread => by
    obtain ⟨hfirst, hnames⟩ := List.nodup_cons.mp hnames
    rw [readSettingEntry] at hread
    by_cases heq : first = name
    · rw [if_pos heq] at hread
      obtain ⟨a, ha, hslots⟩ := exists_of_bind_eq_ok hread
      cases hslots
      refine ⟨?_, filled_congr rest slots (fun n hn => ?_) h.2⟩
      · dsimp only
        rw [if_pos heq]
        exact ⟨a, rfl, ha⟩
      · rw [if_neg]
        rintro rfl
        exact hfirst (heq ▸ hn)
    · rw [if_neg heq] at hread
      obtain ⟨after, hrest, hslots⟩ := exists_of_bind_eq_ok hread
      cases hslots
      refine ⟨?_, Filled.entry rest hnames h.2 hrest⟩
      dsimp only
      rw [if_neg heq]
      exact h.1

/-- The values that filled slots make are those that are picked. -/
theorem Filled.finish {look : String → Option Setting} : {ρ σ : Type} → (fields : Fields ρ σ) →
    {slots : σ} → {r : ρ} → fields.Filled look slots → fields.finish slots = .ok r →
      fields.Picks look r
  | _, _, .nil, (), (), _, _ => trivial
  | _, _, .cons name fallback s rest, (slot, slots), r, h, hfinish => by
    rw [Fields.finish] at hfinish
    cases ha : (slot <|> fallback) with
    | none =>
      rw [ha] at hfinish
      cases hfinish
    | some a =>
      rw [ha] at hfinish
      obtain ⟨as, hrest, hr⟩ := exists_of_bind_eq_ok hfinish
      cases hr
      refine ⟨?_, Filled.finish rest h.2 hrest⟩
      have hslot := h.1
      cases hlook : look name with
      | some v =>
        rw [hlook] at hslot
        obtain ⟨b, rfl, hb⟩ := hslot
        cases ha
        exact hb
      | none =>
        rw [hlook] at hslot
        cases hslot
        exact ha

/-- After all entries each slot holds what is read from the entry of its name. -/
theorem Filled.entries {fields : Fields ρ σ} (hnames : fields.names.Nodup) {strict : Bool}
    {known : List String} : ∀ {es : List (String × Setting)} {look : String → Option Setting}
      {slots slots' : σ}, (es.map Prod.fst).Nodup → fields.Filled look slots →
        es.foldlM (fun slots e =>
          (fields.readSettingEntry strict known e.1 e.2 slots).mapError (Refusal.under e.1)) slots =
            .ok slots' →
          fields.Filled (fun n => (es.lookup n).or (look n)) slots'
  | [], look, slots, slots', _, h, hread => by
    cases hread
    exact h
  | e :: es, look, slots, slots', hnodup, h, hread => by
    rw [List.map_cons, List.nodup_cons] at hnodup
    rw [List.foldlM_cons] at hread
    obtain ⟨after, hentry, hread⟩ := exists_of_bind_eq_ok hread
    refine filled_congr fields slots' (fun n _ => ?_)
      (Filled.entries hnames hnodup.2 (h.entry fields hnames (eq_ok_of_mapError hentry)) hread)
    by_cases hn : n = e.1
    · have hnone : es.lookup n = none := by
        rw [List.lookup_eq_none_iff]
        intro e' he'
        rw [bne_iff_ne, hn]
        rintro heq
        exact hnodup.1 (List.mem_map.mpr ⟨e', he', heq.symm⟩)
      rw [hnone, if_pos hn, List.lookup_cons, hn]
      simp
    · rw [if_neg hn, List.lookup_cons, beq_eq_false_iff_ne.mpr hn]

end Fields

/-- **A record that is read from a table picks each of its fields.** -/
theorem picks_of_readSetting_table {name : String} {strict : Bool} {fields : Fields ρ σ} {make : ρ → α}
    {a : α} (hnames : fields.names.Nodup) {origin : Option String} {es : List (String × Setting)}
    (hnodup : (es.map Prod.fst).Nodup)
    (h : (Shape.record name strict fields make).readSetting (table origin es) = .ok a) :
    ∃ r, make r = a ∧ fields.Picks (table origin es).get? r := by
  rw [Shape.readSetting] at h
  obtain ⟨slots, hslots, h⟩ := exists_of_bind_eq_ok h
  obtain ⟨r, hfinish, hmake⟩ := exists_of_bind_eq_ok h
  cases hmake
  have hfilled := Fields.Filled.entries hnames hnodup fields.filled_empty hslots
  have hlook : (fun n => (es.lookup n).or none) = (table origin es).get? :=
    funext fun n => Option.or_none
  rw [hlook] at hfilled
  exact ⟨r, rfl, hfilled.finish fields (eq_ok_of_mapError hfinish)⟩

/-- A record is read from a table wherever anything is found under a name. -/
theorem picks_of_readSetting {name : String} {strict : Bool} {fields : Fields ρ σ} {make : ρ → α} {a : α}
    (hnames : fields.names.Nodup) {t : Setting} (ht : t.Tidy) {n : String} {v : Setting}
    (hv : t.get? n = some v) (h : (Shape.record name strict fields make).readSetting t = .ok a) :
    ∃ r, make r = a ∧ fields.Picks t.get? r := by
  cases t with
  | table origin es => exact picks_of_readSetting_table hnames (ht [] _ rfl) h
  | _ => cases hv

/-! ## Settings -/

variable {t v : Setting}

/-- A value that may be absent and is not. -/
theorem exists_of_readSetting_optional {s : Shape α} {o : Option α} (hne : v ≠ .absent)
    (h : (Shape.optional s).readSetting v = .ok o) : ∃ a, o = some a ∧ s.readSetting v = .ok a := by
  rw [Shape.readSetting.eq_def] at h
  cases v with
  | absent => exact absurd rfl hne
  | _ =>
    obtain ⟨a, ha, ho⟩ := exists_of_bind_eq_ok h
    cases ho
    exact ⟨a, rfl, ha⟩

section Sections

variable {n : String} (ht : t.Tidy) (hv : t.get? n = some v)

include ht hv

theorem picks_source {s : SourceSettings} (h : SourceSettings.shape.readSetting t = .ok s) :
    (Shape.list Path.shape).Picks (some SourceSettings.default.sources) (t.get? "sources") s.sources ∧
      (Shape.optional .text).Picks (some none) (t.get? "version") s.version ∧
      (Shape.list .text).Picks (some SourceSettings.default.skipped) (t.get? "skip_dirs") s.skipped := by
  obtain ⟨⟨_, _, _, ⟨⟩⟩, rfl, hsources, hversion, hskipped, -⟩ :=
    picks_of_readSetting (by decide) ht hv h
  exact ⟨hsources, hversion, hskipped⟩

theorem picks_output {s : OutputSettings} (h : OutputSettings.shape.readSetting t = .ok s) :
    (Shape.list Target.shape).Picks (some OutputSettings.default.targets) (t.get? "targets") s.targets ∧
      Path.shape.Picks (some OutputSettings.default.directory) (t.get? "output_dir") s.directory := by
  obtain ⟨⟨_, _, ⟨⟩⟩, rfl, htargets, hdirectory, -⟩ := picks_of_readSetting (by decide) ht hv h
  exact ⟨htargets, hdirectory⟩

theorem picks_rust {p : Codegen.RustProfile} (h : Codegen.RustProfile.shape.readSetting t = .ok p) :
    Shape.text.Picks (some Codegen.RustProfile.default.fileName) (t.get? "file_name") p.fileName := by
  obtain ⟨⟨_, ⟨⟩⟩, rfl, hfile, -⟩ := picks_of_readSetting (by decide) ht hv h
  exact hfile

theorem picks_python {p : Codegen.PythonProfile}
    (h : Codegen.PythonProfile.shape.readSetting t = .ok p) :
    Shape.text.Picks (some Codegen.PythonProfile.default.fileName) (t.get? "file_name") p.fileName ∧
      Shape.text.Picks (some Codegen.defaultClass) (t.get? "class_name") p.className := by
  obtain ⟨⟨_, _, ⟨⟩⟩, rfl, hfile, hclass, -⟩ := picks_of_readSetting (by decide) ht hv h
  exact ⟨hfile, hclass⟩

theorem picks_java {p : Codegen.JavaProfile} (h : Codegen.JavaProfile.shape.readSetting t = .ok p) :
    (Shape.optional .text).Picks (some none) (t.get? "file_name") p.fileName ∧
      Shape.text.Picks (some Codegen.defaultPackage) (t.get? "package") p.package ∧
      Shape.text.Picks (some Codegen.defaultClass) (t.get? "class_name") p.className := by
  obtain ⟨⟨_, _, _, ⟨⟩⟩, rfl, hfile, hpackage, hclass, -⟩ :=
    picks_of_readSetting (by decide) ht hv h
  exact ⟨hfile, hpackage, hclass⟩

theorem picks_profiles {p : Codegen.Profiles} (h : Codegen.Profiles.shape.readSetting t = .ok p) :
    Codegen.RustProfile.shape.Picks (some .default) (t.get? "rust") p.rust ∧
      Codegen.PythonProfile.shape.Picks (some .default) (t.get? "python") p.python ∧
      Codegen.JavaProfile.shape.Picks (some .default) (t.get? "java") p.java := by
  obtain ⟨⟨_, _, _, ⟨⟩⟩, rfl, hrust, hpython, hjava, -⟩ := picks_of_readSetting (by decide) ht hv h
  exact ⟨hrust, hpython, hjava⟩

theorem picks_strict {strict : Bool} (h : strictShape.readSetting t = .ok strict) :
    Shape.flag.Picks (some false) (t.get? "warnings_as_errors") strict := by
  obtain ⟨⟨_, ⟨⟩⟩, rfl, hstrict, -⟩ := picks_of_readSetting (by decide) ht hv h
  exact hstrict

theorem picks_check {s : CheckSettings} (h : CheckSettings.shape.readSetting t = .ok s) :
    Shape.flag.Picks (some false) (t.get? "strict") s.strict ∧
      (Shape.optional Path.shape).Picks (some none) (t.get? "baseline_dir") s.directory ∧
      (Shape.optional .text).Picks (some none) (t.get? "git_revision") s.revision ∧
      (Shape.optional Path.shape).Picks (some none) (t.get? "git_repo") s.repository := by
  obtain ⟨⟨_, _, _, _, ⟨⟩⟩, rfl, hstrict, hdirectory, hrevision, hrepository, -⟩ :=
    picks_of_readSetting (by decide) ht hv h
  exact ⟨hstrict, hdirectory, hrevision, hrepository⟩

theorem picks_settings {s : Settings} (h : Settings.shape.readSetting t = .ok s) :
    SourceSettings.shape.Picks (some .default) (t.get? "registry") s.source ∧
      OutputSettings.shape.Picks (some .default) (t.get? "generate") s.output ∧
      Codegen.Profiles.shape.Picks (some .default) (t.get? "codegen") s.profiles ∧
      strictShape.Picks (some false) (t.get? "validation") s.strict ∧
      CheckSettings.shape.Picks (some .default) (t.get? "check") s.check := by
  obtain ⟨⟨_, _, _, _, _, ⟨⟩⟩, rfl, hsource, houtput, hprofiles, hstrict, hcheck, -⟩ :=
    picks_of_readSetting (by decide) ht hv h
  exact ⟨hsource, houtput, hprofiles, hstrict, hcheck⟩

end Sections

theorem Shape.Picks.of_some {s : Shape α} {fallback : Option α} {found : Option Setting} {a : α}
    (h : s.Picks fallback found a) (hv : found = some v) : s.readSetting v = .ok a := by
  rw [hv] at h
  exact h

theorem exists_of_at?_cons {name : String} {path : List String} (h : t.at? (name :: path) = some v) :
    ∃ u, t.get? name = some u ∧ u.at? path = some v :=
  Option.bind_eq_some_iff.mp h

theorem get?_of_at?_singleton {name : String} (h : t.at? [name] = some v) : t.get? name = some v := by
  obtain ⟨u, hu, huv⟩ := exists_of_at?_cons h
  rw [hu, ← huv]
  rfl

/-- **If settings are read, what stands at the path of one of them reads as this setting.** -/
theorem get_of_readSetting {s : Settings} {f : Field} (ht : t.Tidy) (hat : t.at? f.path = some v)
    (hne : v ≠ .absent) (h : Settings.shape.readSetting t = .ok s) :
    ∃ a, f.get s = some a ∧ f.shape.readSetting v = .ok a := by
  have hsections : ∀ {name : String} {path : List String}, t.at? (name :: path) = some v →
      ∃ u, t.get? name = some u ∧ u.at? path = some v ∧ u.Tidy := by
    intro name path hat
    obtain ⟨u, hu, hv⟩ := exists_of_at?_cons hat
    exact ⟨u, hu, hv, ht.of_get? hu⟩
  cases f
  case sources | version | skipped =>
    obtain ⟨u, hu, hv, hut⟩ := hsections hat
    have hv := get?_of_at?_singleton hv
    obtain ⟨hsources, hversion, hskipped⟩ :=
      picks_source hut hv ((picks_settings ht hu h).1.of_some hu)
    first
    | exact ⟨_, rfl, hsources.of_some hv⟩
    | exact exists_of_readSetting_optional hne (hversion.of_some hv)
    | exact ⟨_, rfl, hskipped.of_some hv⟩
  case targets | directory =>
    obtain ⟨u, hu, hv, hut⟩ := hsections hat
    have hv := get?_of_at?_singleton hv
    obtain ⟨htargets, hdirectory⟩ := picks_output hut hv ((picks_settings ht hu h).2.1.of_some hu)
    first
    | exact ⟨_, rfl, htargets.of_some hv⟩
    | exact ⟨_, rfl, hdirectory.of_some hv⟩
  case strict =>
    obtain ⟨u, hu, hv, hut⟩ := hsections hat
    have hv := get?_of_at?_singleton hv
    exact ⟨_, rfl, (picks_strict hut hv ((picks_settings ht hu h).2.2.2.1.of_some hu)).of_some hv⟩
  case checkStrict | baseline | revision | repository =>
    obtain ⟨u, hu, hv, hut⟩ := hsections hat
    have hv := get?_of_at?_singleton hv
    obtain ⟨hstrict, hbaseline, hrevision, hrepository⟩ :=
      picks_check hut hv ((picks_settings ht hu h).2.2.2.2.of_some hu)
    first
    | exact ⟨_, rfl, hstrict.of_some hv⟩
    | exact exists_of_readSetting_optional hne (hbaseline.of_some hv)
    | exact exists_of_readSetting_optional hne (hrevision.of_some hv)
    | exact exists_of_readSetting_optional hne (hrepository.of_some hv)
  case rustFile | pythonFile | pythonClass | javaFile | javaPackage | javaClass =>
    obtain ⟨u, hu, hat, hut⟩ := hsections hat
    obtain ⟨w, hw, hv⟩ := exists_of_at?_cons hat
    have hv := get?_of_at?_singleton hv
    have hwt : w.Tidy := hut.of_get? hw
    obtain ⟨hrust, hpython, hjava⟩ :=
      picks_profiles hut hw ((picks_settings ht hu h).2.2.1.of_some hu)
    first
    | exact ⟨_, rfl, (picks_rust hwt hv (hrust.of_some hw)).of_some hv⟩
    | exact ⟨_, rfl, (picks_python hwt hv (hpython.of_some hw)).1.of_some hv⟩
    | exact ⟨_, rfl, (picks_python hwt hv (hpython.of_some hw)).2.of_some hv⟩
    | exact exists_of_readSetting_optional hne ((picks_java hwt hv (hjava.of_some hw)).1.of_some hv)
    | exact ⟨_, rfl, (picks_java hwt hv (hjava.of_some hw)).2.1.of_some hv⟩
    | exact ⟨_, rfl, (picks_java hwt hv (hjava.of_some hw)).2.2.of_some hv⟩

end AttributeRegistry
