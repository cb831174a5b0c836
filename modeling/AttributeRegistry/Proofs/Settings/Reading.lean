import AttributeRegistry.Proofs.Settings.Merging

/-!
# Reading layered settings

A record reads from a table whose names are distinct if each of its fields does: from the value under
its name, or without it if there is none (`readSetting_record`). So the settings read from what the
layers make together, section by section (`Setting.Shows.readSetting`).
-/

namespace AttributeRegistry

open Settings Setting

variable {α ρ σ : Type}

/-! ## Records -/

/-- A value is what a shape reads, or stands for what is not there. -/
def Shape.Picks (s : Shape α) (fallback : Option α) (found : Option Setting) (a : α) : Prop :=
  match found with
  | some v => s.readSetting v = .ok a
  | none => fallback = some a

namespace Fields

/-- Values of some fields are what their shapes read, or stand for what is not there. -/
def Picks : {ρ σ : Type} → Fields ρ σ → (String → Option Setting) → ρ → Prop
  | _, _, .nil, _, () => True
  | _, _, .cons name fallback s rest, look, (a, as) =>
    s.Picks fallback (look name) a ∧ rest.Picks look as

/-- The slots of some fields, those filled whose names are met. -/
def slots : {ρ σ : Type} → Fields ρ σ → (String → Bool) → ρ → σ
  | _, _, .nil, _, () => ()
  | _, _, .cons name _ _ rest, met, (a, as) =>
    (if met name then some a else none, rest.slots met as)

theorem slots_congr {met met' : String → Bool} : {ρ σ : Type} → (fields : Fields ρ σ) → (r : ρ) →
    (∀ name ∈ fields.names, met name = met' name) → fields.slots met r = fields.slots met' r
  | _, _, .nil, (), _ => rfl
  | _, _, .cons name _ _ rest, (a, as), h => by
    obtain ⟨hname, hrest⟩ := List.forall_mem_cons.mp h
    rw [slots, slots, hname, slots_congr rest as hrest]

theorem slots_empty : {ρ σ : Type} → (fields : Fields ρ σ) → (r : ρ) →
    fields.slots (fun _ => false) r = fields.empty
  | _, _, .nil, () => rfl
  | _, _, .cons _ _ _ rest, (_, as) => by
    rw [slots, empty, slots_empty rest as]
    rfl

/-- The filled slots make the values. -/
theorem finish_slots {look : String → Option Setting} : {ρ σ : Type} → (fields : Fields ρ σ) →
    (r : ρ) → fields.Picks look r →
      fields.finish (fields.slots (fun name => (look name).isSome) r) = .ok r
  | _, _, .nil, (), _ => rfl
  | _, _, .cons name fallback _ rest, (a, as), h => by
    rw [slots, finish]
    have hslot : ((if (look name).isSome then some a else none) <|> fallback) = some a := by
      have hname := h.1
      cases hlook : look name with
      | some v => rfl
      | none =>
        rw [hlook] at hname
        rw [hname]
        rfl
    rw [hslot]
    dsimp only
    rw [finish_slots rest as h.2]
    rfl

/-- An entry fills the slot of its name. -/
theorem readSettingEntry_slots {look : String → Option Setting} {name : String} {v : Setting}
    (known : List String) (met : String → Bool) (hlook : look name = some v) : {ρ σ : Type} →
      (fields : Fields ρ σ) → (r : ρ) → fields.names.Nodup → fields.Picks look r →
        fields.readSettingEntry false known name v (fields.slots met r) =
          .ok (fields.slots (fun n => met n || n = name) r)
  | _, _, .nil, (), _, _ => rfl
  | _, _, .cons first fallback s rest, (a, as), hnames, h => by
    obtain ⟨hfirst, hnames⟩ := List.nodup_cons.mp hnames
    rw [slots, slots, readSettingEntry]
    by_cases heq : first = name
    · subst heq
      have hread := h.1
      rw [hlook] at hread
      have hrest : rest.slots (fun n => met n || n = first) as = rest.slots met as := by
        refine slots_congr rest as fun n hn => ?_
        have hne : n ≠ first := fun heq => hfirst (heq ▸ hn)
        simp [hne]
      rw [if_pos rfl, hread, hrest]
      simp [Bind.bind, Except.bind, Pure.pure, Except.pure]
    · rw [if_neg heq, readSettingEntry_slots known met hlook rest as hnames h.2]
      simp [Bind.bind, Except.bind, Pure.pure, Except.pure, heq]

end Fields

theorem lookup_eq_some_of_mem {es : List (String × Setting)} (hnodup : (es.map Prod.fst).Nodup)
    {e : String × Setting} (he : e ∈ es) : es.lookup e.1 = some e.2 := by
  induction es with
  | nil => cases he
  | cons first es ih =>
    rw [List.map_cons, List.nodup_cons] at hnodup
    rw [List.lookup_cons]
    rcases List.mem_cons.mp he with rfl | he
    · simp
    · have hne : e.1 ≠ first.1 := fun heq => hnodup.1 (heq ▸ List.mem_map_of_mem he)
      rw [beq_eq_false_iff_ne.mpr hne]
      exact ih hnodup.2 he

/-- What has an entry in a table. -/
theorem Setting.isSome_get? (t : Setting) (name : String) :
    (t.get? name).isSome = (t.entries.map Prod.fst).contains name := by
  rw [Bool.eq_iff_iff, List.contains_iff_mem, get?, List.lookup_isSome_iff]
  simp

/-- **A record reads from a table if its fields do.** -/
theorem readSetting_record {name : String} {fields : Fields ρ σ} {make : ρ → α} {r : ρ}
    (hnames : fields.names.Nodup) {t : Setting} (ht : t.IsTable) (h : fields.Picks t.get? r) :
    (Shape.record name false fields make).readSetting t = .ok (make r) := by
  obtain ⟨origin, es, rfl, hnodup⟩ := ht
  have hfold : ∀ rest : List (String × Setting), rest ⊆ es → ∀ met : String → Bool,
      rest.foldlM (fun slots e => (fields.readSettingEntry false fields.names e.1 e.2 slots).mapError
        (Refusal.under e.1)) (fields.slots met r) =
        .ok (fields.slots (fun n => met n || (rest.map Prod.fst).contains n) r) := by
    intro rest
    induction rest with
    | nil => intro _ met; simp [Pure.pure, Except.pure]
    | cons e rest ih =>
      intro hrest met
      obtain ⟨he, hrest⟩ := List.cons_subset.mp hrest
      have hentry := Fields.readSettingEntry_slots fields.names met
        (lookup_eq_some_of_mem hnodup he) fields r hnames h
      rw [List.foldlM_cons, hentry]
      refine (ih hrest _).trans (congrArg Except.ok (fields.slots_congr r fun n _ => ?_))
      simp [Bool.or_assoc, Bool.beq_eq_decide_eq]
  have hmet : ∀ n, (false || (es.map Prod.fst).contains n) = ((table origin es).get? n).isSome :=
    fun n => (isSome_get? (table origin es) n).symm
  have hall := hfold es (List.Subset.refl es) fun _ => false
  rw [fields.slots_empty, fields.slots_congr r fun n _ => hmet n] at hall
  rw [Shape.readSetting, hall]
  simp only [Bind.bind, Except.bind, fields.finish_slots r h]
  rfl

/-! ## Settings -/

/-- What the layers make together says what a part says: the sections are tables, and each setting that
the part says something about reads as that, while the others are not there. -/
structure Setting.Shows (t : Setting) (p : Part) : Prop where
  sectioned : t.Sectioned []
  reads : ∀ f a, p f = some a → ∃ v, t.at? f.path = some v ∧ f.shape.readSetting v = .ok a
  absent : ∀ f, p f = none → t.at? f.path = none

variable {t : Setting} {p : Part}

namespace Setting

theorem at?_append (path more : List String) :
    t.at? (path ++ more) = (t.at? path).bind (at? more) := by
  induction path generalizing t with
  | nil => rfl
  | cons name path ih =>
    rw [List.cons_append, at?, at?, Option.bind_assoc]
    exact congrArg _ (funext fun u => ih)

/-- A setting that has a default. -/
theorem Shows.picks (h : t.Shows p) (f : Field) (fallback : f.Value) :
    f.shape.Picks (some fallback) (t.at? f.path) ((p f).getD fallback) := by
  cases hp : p f with
  | none =>
    rw [h.absent f hp]
    rfl
  | some a =>
    obtain ⟨v, hv, hread⟩ := h.reads f a hp
    rw [hv]
    exact hread

theorem readSetting_absent (f : Field) (a : f.Value) : f.shape.readSetting .absent ≠ .ok a := by
  intro h
  cases f <;> cases h

/-- A setting that may be absent. -/
theorem Shows.picks_optional (h : t.Shows p) (f : Field) :
    (Shape.optional f.shape).Picks (some none) (t.at? f.path) (p f) := by
  cases hp : p f with
  | none =>
    rw [h.absent f hp]
    rfl
  | some a =>
    obtain ⟨v, hv, hread⟩ := h.reads f a hp
    rw [hv]
    cases v with
    | absent => exact absurd hread (readSetting_absent f a)
    | _ =>
      show (Shape.optional f.shape).readSetting _ = .ok (some a)
      rw [Shape.readSetting.eq_def]
      dsimp only
      rw [hread]
      rfl

/-- A section reads if its fields do; without it, they are as by default. -/
theorem Shows.picks_section (h : t.Shows p) {path : List String} {name : String}
    {fields : Fields ρ σ} {make : ρ → α} {fallback : α} (r : ρ) (hsection : path ∈ Field.sections)
    (hnames : fields.names.Nodup) (hfields : fields.Picks (fun n => t.at? (path ++ [n])) r)
    (hfallback : ∀ r, fields.Picks (fun _ => none) r → make r = fallback) :
    (Shape.record name false fields make).Picks (some fallback) (t.at? path) (make r) := by
  simp only [at?_append] at hfields
  cases hu : t.at? path with
  | none =>
    rw [hu] at hfields
    rw [hfallback r hfields]
    rfl
  | some u =>
    rw [hu] at hfields
    have hget : (fun n => (some u).bind (at? [n])) = u.get? := by
      funext n
      rw [Option.bind_some, at?]
      cases u.get? n <;> rfl
    rw [hget] at hfields
    exact readSetting_record hnames (h.sectioned path hsection u hu) hfields

theorem Shows.picks_source (h : t.Shows p) :
    SourceSettings.shape.Picks (some .default) (t.at? ["registry"]) (ofPart p).source := by
  unfold SourceSettings.shape
  refine h.picks_section (_, _, _, ()) (by decide) (by decide)
    ⟨h.picks .sources _, h.picks_optional .version, h.picks .skipped _, trivial⟩ ?_
  rintro ⟨_, _, _, ⟨⟩⟩ ⟨⟨⟩, ⟨⟩, ⟨⟩, -⟩
  rfl

theorem Shows.picks_output (h : t.Shows p) :
    OutputSettings.shape.Picks (some .default) (t.at? ["generate"]) (ofPart p).output := by
  unfold OutputSettings.shape
  refine h.picks_section (_, _, ()) (by decide) (by decide)
    ⟨h.picks .targets _, h.picks .directory _, trivial⟩ ?_
  rintro ⟨_, _, ⟨⟩⟩ ⟨⟨⟩, ⟨⟩, -⟩
  rfl

theorem Shows.picks_rust (h : t.Shows p) : Codegen.RustProfile.shape.Picks (some .default)
    (t.at? ["codegen", "rust"]) (ofPart p).profiles.rust := by
  unfold Codegen.RustProfile.shape
  refine h.picks_section (_, ()) (by decide) (by decide) ⟨h.picks .rustFile _, trivial⟩ ?_
  rintro ⟨_, ⟨⟩⟩ ⟨⟨⟩, -⟩
  rfl

theorem Shows.picks_python (h : t.Shows p) : Codegen.PythonProfile.shape.Picks (some .default)
    (t.at? ["codegen", "python"]) (ofPart p).profiles.python := by
  unfold Codegen.PythonProfile.shape
  refine h.picks_section (_, _, ()) (by decide) (by decide)
    ⟨h.picks .pythonFile _, h.picks .pythonClass _, trivial⟩ ?_
  rintro ⟨_, _, ⟨⟩⟩ ⟨⟨⟩, ⟨⟩, -⟩
  rfl

theorem Shows.picks_java (h : t.Shows p) : Codegen.JavaProfile.shape.Picks (some .default)
    (t.at? ["codegen", "java"]) (ofPart p).profiles.java := by
  unfold Codegen.JavaProfile.shape
  refine h.picks_section (_, _, _, ()) (by decide) (by decide)
    ⟨h.picks_optional .javaFile, h.picks .javaPackage _, h.picks .javaClass _, trivial⟩ ?_
  rintro ⟨_, _, _, ⟨⟩⟩ ⟨⟨⟩, ⟨⟩, ⟨⟩, -⟩
  rfl

theorem Shows.picks_profiles (h : t.Shows p) : Codegen.Profiles.shape.Picks (some .default)
    (t.at? ["codegen"]) (ofPart p).profiles := by
  unfold Codegen.Profiles.shape
  refine h.picks_section (_, _, _, ()) (by decide) (by decide)
    ⟨h.picks_rust, h.picks_python, h.picks_java, trivial⟩ ?_
  rintro ⟨_, _, _, ⟨⟩⟩ ⟨⟨⟩, ⟨⟩, ⟨⟩, -⟩
  rfl

theorem Shows.picks_strict (h : t.Shows p) :
    strictShape.Picks (some false) (t.at? ["validation"]) (ofPart p).strict := by
  unfold strictShape
  refine h.picks_section (_, ()) (by decide) (by decide) ⟨h.picks .strict _, trivial⟩ ?_
  rintro ⟨_, ⟨⟩⟩ ⟨⟨⟩, -⟩
  rfl

theorem Shows.picks_check (h : t.Shows p) :
    CheckSettings.shape.Picks (some .default) (t.at? ["check"]) (ofPart p).check := by
  unfold CheckSettings.shape
  refine h.picks_section (_, _, _, _, ()) (by decide) (by decide)
    ⟨h.picks .checkStrict _, h.picks_optional .baseline, h.picks_optional .revision,
      h.picks_optional .repository, trivial⟩ ?_
  rintro ⟨_, _, _, _, ⟨⟩⟩ ⟨⟨⟩, ⟨⟩, ⟨⟩, ⟨⟩, -⟩
  rfl

/-- **The settings read from the layers are those the layers make together.** -/
theorem Shows.readSetting (h : t.Shows p) : Settings.shape.readSetting t = .ok (ofPart p) := by
  have hpicks : Settings.shape.Picks (some .default) (t.at? []) (ofPart p) := by
    unfold Settings.shape
    refine h.picks_section (_, _, _, _, _, ()) (by decide) (by decide)
      ⟨h.picks_source, h.picks_output, h.picks_profiles, h.picks_strict, h.picks_check, trivial⟩ ?_
    rintro ⟨_, _, _, _, _, ⟨⟩⟩ ⟨⟨⟩, ⟨⟩, ⟨⟩, ⟨⟩, ⟨⟩, -⟩
    rfl
  exact hpicks

end Setting

end AttributeRegistry
