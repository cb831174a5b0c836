import AttributeRegistry.Proofs.Settings.Inverted
import AttributeRegistry.Proofs.Settings.Layered

/-!
# Texts from the environment

The value of a variable is taken for a flag, an integer or a double wherever it looks like one, before
it is known what the variable is for. A setting that is a text is then given what that flag or number is
written as (`spelledBack`). That is the value of the variable iff it looks like none of these, or is
written in the same way (`Verbatim`).

Main statement: whatever else the settings come from, this is the text that is loaded
(`loadSettings_text_iff`).
-/

namespace AttributeRegistry

open Settings Setting

/-! ## Settings that are texts -/

namespace Settings.Field

/-- Whether a setting is a text. -/
def isText : Field → Bool
  | sources | skipped | targets | strict | checkStrict => false
  | _ => true

/-- The text that a setting is; there is none if it is not set, or no text. -/
def text? (s : Settings) : Field → Option String
  | sources | skipped | targets | strict | checkStrict => none
  | version => s.source.version
  | directory => some s.output.directory
  | rustFile => some s.profiles.rust.fileName
  | pythonFile => some s.profiles.python.fileName
  | pythonClass => some s.profiles.python.className
  | javaFile => s.profiles.java.fileName
  | javaPackage => some s.profiles.java.package
  | javaClass => some s.profiles.java.className
  | baseline => s.check.directory
  | revision => s.check.revision
  | repository => s.check.repository

theorem readSetting_text (v : Setting) : Shape.text.readSetting v = v.toText := by
  rw [Shape.readSetting]

theorem toText_of_readSetting_path {v : Setting} {p : String} (h : Path.shape.readSetting v = .ok p) :
    v.toText = .ok p := by
  rw [Path.shape, Shape.readSetting] at h
  obtain ⟨text, htext, h⟩ := exists_of_bind_eq_ok h
  cases h
  exact htext

/-- What a setting that is a text is read from is taken as a text. -/
theorem text?_of_readSetting {s : Settings} {f : Field} {v : Setting} {a : f.Value}
    (htext : f.isText = true) (hget : f.get s = some a) (hread : f.shape.readSetting v = .ok a) :
    ∃ text, f.text? s = some text ∧ v.toText = .ok text := by
  cases f
  case sources | skipped | targets | strict | checkStrict => cases htext
  case directory | baseline | repository => exact ⟨a, hget, toText_of_readSetting_path hread⟩
  all_goals exact ⟨a, hget, (readSetting_text v).symm.trans hread⟩

theorem dotted_not_mem_listNames {f : Field} (h : f.isText = true) :
    Workspace.listNames.contains f.dotted = false := by
  revert h
  cases f <;> decide

end Settings.Field

/-! ## What stays at a path -/

namespace Setting

variable {t u v : Setting} {path : List String}

/-- A list or a table. -/
def IsContainer : Setting → Prop
  | list .. | table .. => True
  | _ => False

/-- Whether some steps lead to where a path leads, or to something on the way there. A step into a list
is on the way because what it goes into becomes a list. -/
def covers : List Step → List String → Bool
  | [], _ => true
  | _ :: _, [] => false
  | .name s :: steps, name :: path => fold s = name && covers steps path
  | .index _ :: _, _ :: _ => true

/-- The steps to what is changed by a value under some name. -/
def stepsOf (name : String) : List Step :=
  match steps? name with
  | some (steps, last) => steps ++ [last]
  | none => [.name name]

theorem isContainer_set (t : Setting) (name : String) (v : Setting) : (t.set name v).IsContainer := by
  cases t <;> trivial

theorem exists_put_eq_set (t : Setting) (name : String) (v : Setting) :
    ∃ w, t.put name v = t.set (fold name) w := by
  cases v <;> exact ⟨_, rfl⟩

theorem isContainer_putAt (t : Setting) (steps : List Step) (last : Step) (v : Setting) :
    (t.putAt steps last v).IsContainer := by
  unfold putAt
  cases steps with
  | nil =>
    cases last with
    | name s =>
      obtain ⟨w, hw⟩ := exists_put_eq_set t s v
      show (t.put s v).IsContainer
      rw [hw]
      exact isContainer_set t (fold s) w
    | index i => trivial
  | cons step steps =>
    cases step with
    | name s => exact isContainer_set t (fold s) _
    | index i => trivial

/-- What stands at a path stays there or becomes a container, if a change does not cover it. -/
theorem at?_putAt_of_not_covers {steps : List Step} {last : Step}
    (h : covers (steps ++ [last]) path = false) (hu : t.at? path = some u) :
    ∃ u', (t.putAt steps last v).at? path = some u' ∧ (u' = u ∨ u'.IsContainer) := by
  induction path generalizing t steps with
  | nil => exact ⟨_, rfl, .inr (isContainer_putAt t steps last v)⟩
  | cons name path ih =>
    cases steps with
    | nil =>
      cases last with
      | index i => cases h
      | name s =>
        have hne : name ≠ fold s := by
          rintro rfl
          simp [covers] at h
        obtain ⟨w, hw⟩ := exists_put_eq_set t s v
        refine ⟨u, ?_, .inl rfl⟩
        rw [show t.putAt [] (.name s) v = t.put s v from rfl, hw, at?_cons_set_of_ne hne, hu]
    | cons step steps =>
      cases step with
      | index i => cases h
      | name s =>
        unfold putAt
        rw [change]
        by_cases hs : fold s = name
        · subst hs
          obtain ⟨w, hw, hwu⟩ := exists_of_at?_cons hu
          rw [at?_cons_set_self, hw, Option.getD_some]
          exact ih (by simpa [covers] using h) hwu
        · rw [at?_cons_set_of_ne (Ne.symm hs)]
          exact ⟨u, hu, .inl rfl⟩

/-- What stands at a path stays there or becomes a container under a layer without a name that covers
it. -/
theorem at?_putLayer_of_not_covers {layer : List (String × Setting)}
    (h : ∀ e ∈ layer, covers (stepsOf e.1) path = false) (hu : t.at? path = some u) :
    ∃ u', (t.putLayer layer).at? path = some u' ∧ (u' = u ∨ u'.IsContainer) := by
  unfold putLayer
  induction layer generalizing t u with
  | nil => exact ⟨u, hu, .inl rfl⟩
  | cons e layer ih =>
    obtain ⟨name, v⟩ := e
    obtain ⟨he, hlayer⟩ := List.forall_mem_cons.mp h
    have hstep : ∃ u', (match steps? name with
        | some (steps, last) => t.putAt steps last v
        | none => t.put name v).at? path = some u' ∧ (u' = u ∨ u'.IsContainer) := by
      rw [stepsOf] at he
      cases hsteps : steps? name with
      | none =>
        rw [hsteps] at he
        have hput : t.put name v = t.putAt [] (.name name) v := rfl
        rw [hput]
        exact at?_putAt_of_not_covers he hu
      | some found =>
        rw [hsteps] at he
        exact at?_putAt_of_not_covers he hu
    obtain ⟨u', hu', hkept⟩ := hstep
    rw [List.foldl_cons]
    obtain ⟨u'', hu'', hkept'⟩ := ih hlayer hu'
    refine ⟨u'', hu'', ?_⟩
    rcases hkept' with rfl | hcontainer
    · exact hkept
    · exact .inr hcontainer

/-- What is put at a path of names stands there. -/
theorem at?_putAt_names (hv : ∀ o es, v ≠ table o es) {names : List String} {last : String}
    (hfold : ∀ name ∈ names ++ [last], fold name = name) :
    (t.putAt (names.map Step.name) (.name last) v).at? (names ++ [last]) = some v := by
  unfold putAt
  induction names generalizing t with
  | nil =>
    show (t.put last v).at? [last] = some v
    rw [put_of_ne hv, hfold last (by simp), at?_cons_set_self]
    rfl
  | cons name names ih =>
    rw [List.cons_append, List.forall_mem_cons] at hfold
    rw [List.map_cons, change, hfold.1, List.cons_append, at?_cons_set_self]
    exact ih hfold.2

end Setting

/-! ## What a variable is read as -/

namespace Workspace

/-- What a text is read as from a variable: what is written for the flag or the number it is taken for,
or else the text. -/
def spelledBack (value : String) : String :=
  if fold value = "true" then "true"
  else if fold value = "false" then "false"
  else match Decimal.int64? value.toList with
    | some n => toString n
    | none =>
      match float? value with
      | some x => Decimal.write Decimal.plainLayout x
      | none => value

/-- A text that is read from a variable as it is: it looks like neither a flag nor a number, or it is
how one is written. -/
inductive Verbatim (value : String) : Prop
  | text (h : IsText value)
  | flag (b : Bool) (hwritten : value = toString b)
  | integer {n : Int} (h : Decimal.int64? value.toList = some n) (hwritten : value = toString n)
  | double {x : Float} (hinteger : Decimal.int64? value.toList = none) (h : float? value = some x)
    (hwritten : value = Decimal.write Decimal.plainLayout x)

theorem toText_variableValue {name : String} (h : listNames.contains name = false) (value : String) :
    (variableValue name value).toText = .ok (spelledBack value) := by
  rw [variableValue, spelledBack]
  by_cases htrue : fold value = "true"
  · rw [if_pos htrue, if_pos htrue]
    rfl
  by_cases hfalse : fold value = "false"
  · rw [if_neg htrue, if_pos hfalse, if_neg htrue, if_pos hfalse]
    rfl
  rw [if_neg htrue, if_neg hfalse, if_neg htrue, if_neg hfalse]
  cases Decimal.int64? value.toList with
  | some n => rfl
  | none =>
    cases float? value with
    | some x => rfl
    | none =>
      rw [h]
      rfl

theorem not_isContainer_of_toText {v : Setting} {s : String} (h : v.toText = .ok s) :
    ¬v.IsContainer := by
  intro hcontainer
  cases v with
  | list | table => cases h
  | _ => exact hcontainer

/-- **A text comes through a variable as it is iff it is verbatim.** -/
theorem spelledBack_eq_self_iff {value : String} : spelledBack value = value ↔ Verbatim value := by
  constructor
  · intro h
    unfold spelledBack at h
    by_cases htrue : fold value = "true"
    · exact .flag true (by rw [← h, if_pos htrue]; rfl)
    by_cases hfalse : fold value = "false"
    · exact .flag false (by rw [← h, if_neg htrue, if_pos hfalse]; rfl)
    rw [if_neg htrue, if_neg hfalse] at h
    cases hinteger : Decimal.int64? value.toList with
    | some n =>
      rw [hinteger] at h
      exact .integer hinteger h.symm
    | none =>
      rw [hinteger] at h
      cases hdouble : float? value with
      | some x =>
        rw [hdouble] at h
        exact .double hinteger hdouble h.symm
      | none => exact .text ⟨htrue, hfalse, hinteger, hdouble⟩
  · intro h
    unfold spelledBack
    cases h with
    | text h => rw [if_neg h.ne_true, if_neg h.ne_false, h.no_integer, h.no_double]
    | flag b hwritten =>
      rw [hwritten]
      cases b <;> decide
    | integer h hwritten =>
      rw [if_neg (fold_ne_of_int64? h "true" (by decide)),
        if_neg (fold_ne_of_int64? h "false" (by decide)), h]
      exact hwritten.symm
    | double hinteger h hwritten =>
      have hne : ∀ word ∈ ["true", "false"], fold value ≠ word := by
        intro word hword hfold
        have hnone : float? value = none := by
          simp only [List.mem_cons, List.not_mem_nil, or_false] at hword
          rcases hword with rfl | rfl
          · exact float?_eq_none_of_fold hfold (by decide) (by decide)
          · exact float?_eq_none_of_fold hfold (by decide) (by decide)
        rw [hnone] at h
        cases h
      rw [if_neg (hne "true" (by simp)), if_neg (hne "false" (by simp)), hinteger, h]
      exact hwritten.symm

/-! ## Loading -/

variable {w : Workspace} {named : Option String} {s : Settings} {f : Field}
  {before after : List (String × String)} {e : String × String}

/-- The settings are read from what the environment makes of the files. -/
theorem exists_of_loadSettings (h : w.loadSettings named = .ok s) :
    ∃ t : Setting, (t.putLayer w.environmentLayer).Tidy ∧
      Settings.shape.readSetting (t.putLayer w.environmentLayer) = .ok s := by
  obtain ⟨whole, hwhole, hread⟩ := exists_of_bind_eq_ok h
  have htidy := tidy_layered hwhole
  obtain ⟨layers, -, hlayers⟩ := exists_of_bind_eq_ok hwhole
  cases hlayers
  rw [List.foldl_append, List.foldl_cons, List.foldl_nil] at htidy hread
  exact ⟨_, htidy, eq_ok_of_mapError hread⟩

/-- No variable is for something that a setting is, or stands in. -/
def Spares (es : List (String × String)) (f : Field) : Prop :=
  ∀ e ∈ es, ∀ name, settingName? e.1 = some name → covers (stepsOf name) f.path = false

/-- A variable is what its setting's place holds if no later one is for it. -/
theorem at?_environmentLayer (hsplit : w.environment = before ++ e :: after)
    (hname : fold e.1 = f.variableName) (hafter : Spares after f) (t : Setting) :
    ∃ u, (t.putLayer w.environmentLayer).at? f.path = some u ∧
      (u = variableValue f.dotted e.2 ∨ u.IsContainer) := by
  obtain ⟨names, last, hpath, hsteps⟩ := f.steps?_dotted
  have hlayer : w.environmentLayer = { w with environment := before }.environmentLayer ++
      (f.dotted, variableValue f.dotted e.2) :: { w with environment := after }.environmentLayer := by
    simp [environmentLayer, hsplit, Field.settingName?_of_fold hname]
  have hput : ∀ t : Setting, (t.putAt (names.map Step.name) (.name last)
      (variableValue f.dotted e.2)).at? f.path = some (variableValue f.dotted e.2) := by
    intro t
    have hfold : ∀ name ∈ names ++ [last], fold name = name :=
      fun name hmem => Field.fold_of_mem_path (hpath ▸ hmem)
    rw [hpath]
    exact at?_putAt_names (variableValue_ne_table _ _) hfold
  have hrest : ∀ entry ∈ { w with environment := after }.environmentLayer,
      covers (stepsOf entry.1) f.path = false := by
    intro entry hentry
    obtain ⟨e', he', hentry⟩ := List.mem_filterMap.mp hentry
    obtain ⟨name, hname', hentry⟩ := Option.bind_eq_some_iff.mp hentry
    cases hentry
    exact hafter e' he' name hname'
  rw [hlayer, putLayer_append, putLayer_cons hsteps]
  exact at?_putLayer_of_not_covers hrest (hput _)

/-- What is loaded for a text is what its variable is read as. -/
theorem text?_of_loadSettings (htext : f.isText = true) (hsplit : w.environment = before ++ e :: after)
    (hname : fold e.1 = f.variableName) (hafter : Spares after f)
    (hload : w.loadSettings named = .ok s) : f.text? s = some (spelledBack e.2) := by
  obtain ⟨t, htidy, hread⟩ := exists_of_loadSettings hload
  obtain ⟨u, hu, hcases⟩ := at?_environmentLayer hsplit hname hafter t
  have hvalue := toText_variableValue (Field.dotted_not_mem_listNames htext) e.2
  have hne : u ≠ .absent := by
    rintro rfl
    rcases hcases with heq | hcontainer
    · rw [← heq] at hvalue
      cases hvalue
    · exact hcontainer
  obtain ⟨a, hget, hreads⟩ := get_of_readSetting htidy hu hne hread
  obtain ⟨text, htext?, hto⟩ := Field.text?_of_readSetting htext hget hreads
  rcases hcases with rfl | hcontainer
  · rw [htext?, ← Except.ok.inj (hvalue.symm.trans hto)]
  · exact absurd hcontainer (not_isContainer_of_toText hto)

/-- **A text from the environment is loaded as it is iff it is verbatim.** Whatever the files and the
other variables say, if settings are loaded and no later variable is for the same setting or for a
section around it, then the setting is what its variable is read as. -/
theorem loadSettings_text_iff (htext : f.isText = true)
    (hsplit : w.environment = before ++ e :: after) (hname : fold e.1 = f.variableName)
    (hafter : Spares after f) (hload : w.loadSettings named = .ok s) :
    f.text? s = some (spelledBack e.2) ∧ (f.text? s = some e.2 ↔ Verbatim e.2) := by
  have hloaded := text?_of_loadSettings htext hsplit hname hafter hload
  refine ⟨hloaded, ?_⟩
  rw [hloaded, Option.some.injEq]
  exact spelledBack_eq_self_iff

/-- No files, a variable for a revision, and one that says to be strict. -/
private def revising (value : String) : Workspace :=
  ⟨⟨[], []⟩, [("SEMCONV__CHECK__GIT_REVISION", value), ("SEMCONV__CHECK__STRICT", "on")], "/home/user"⟩

private def revisingPart (value : String) : Part
  | .revision => some (spelledBack value)
  | .checkStrict => some true
  | _ => none

private theorem spares_revising : Spares [("SEMCONV__CHECK__STRICT", "on")] .revision := by
  refine List.forall_mem_singleton.mpr fun name hname => ?_
  rw [Field.settingName?_of_fold (f := .checkStrict) (by decide)] at hname
  cases hname
  decide +kernel

private theorem isFile_revising (value : String) :
    ∀ path ∈ (revising value).settingsPaths none, (revising value).files.isFile path = false := by
  have hfollow : ∀ path ∈ (revising "").settingsPaths none,
      (((FileTree.mk [] []).follow [] (Text.splitOn '/' path.toList)).toOption.bind
        (FileTree.mk [] []).node?).isNone = true := by
    decide +kernel
  intro path hpath
  refine isFile_eq_false (FileTree.toOption_find_eq_none (Option.isNone_iff_eq_none.mp ?_))
  rw [show (if path.startsWith "/" then [] else (revising value).files.workingDirectory) = [] from
    ite_self []]
  exact hfollow path hpath

private theorem says_revising (value : String) :
    LayerSays (revisingPart value) (revising value).environmentLayer := by
  intro t
  have hrevision : fold "SEMCONV__CHECK__GIT_REVISION" = Field.variableName .revision := by decide
  have hstrict : fold "SEMCONV__CHECK__STRICT" = Field.variableName .checkStrict := by decide
  have hlayer : (revising value).environmentLayer =
      [(Field.dotted .revision, variableValue (Field.dotted .revision) value),
        (Field.dotted .checkStrict, variableValue (Field.dotted .checkStrict) "on")] := by
    simp [environmentLayer, revising, Field.settingName?_of_fold hrevision,
      Field.settingName?_of_fold hstrict]
  have hread : (Field.shape .revision).readSetting (variableValue (Field.dotted .revision) value) =
      .ok (spelledBack value) :=
    (Field.readSetting_text _).trans (toText_variableValue (by decide) value)
  have hflag : (Field.shape .checkStrict).readSetting
      (variableValue (Field.dotted .checkStrict) "on") = .ok true :=
    readSetting_flag (by decide) (.yes (by decide))
  have hnone : ∀ t : Setting, Takes (revisingPart value) (fun _ => False) [] t (t.putLayer []) :=
    fun _ => Takes.refl
  have hrest := Field.takes_putLayer_cons rfl hflag (variableValue_ne_table _ _) hnone
  rw [hlayer]
  refine (Field.takes_putLayer_cons rfl hread (variableValue_ne_table _ _) hrest t).congr fun f => ?_
  cases f <;> simp [revisingPart]

private theorem loadSettings_revising (value : String) :
    (revising value).loadSettings none = .ok (ofPart (revisingPart value)) := by
  have hpart : Part.first [revisingPart value] = revisingPart value := by
    rw [Part.first_cons]
    exact funext fun f => Option.or_none
  have hshows := shows_layers (.cons (says_revising value) .nil)
  rw [List.reverse_singleton, hpart, List.foldl_cons, List.foldl_nil] at hshows
  rw [loadSettings_eq_environment (isFile_revising value), hshows.readSetting]
  rfl

/-- The name of a branch is loaded as it is. -/
theorem loadSettings_branch : ∃ s, (revising "release/1.0").loadSettings none = .ok s ∧
    Field.text? s .revision = some "release/1.0" := by
  have hfold : fold "release/1.0" = "release/1.0" := by decide
  have htext : IsText "release/1.0" :=
    ⟨by decide, by decide, by decide, float?_eq_none_of_fold hfold (by decide) (by decide)⟩
  have hsplit : (revising "release/1.0").environment =
      [] ++ ("SEMCONV__CHECK__GIT_REVISION", "release/1.0") :: [("SEMCONV__CHECK__STRICT", "on")] := rfl
  have hload := loadSettings_revising "release/1.0"
  exact ⟨_, hload,
    (loadSettings_text_iff rfl hsplit (by decide) spares_revising hload).2.mpr (.text htext)⟩

/-- **A revision of digits loses the zeros it begins with.** -/
theorem not_loadSettings_digits : ∃ s, (revising "0012345").loadSettings none = .ok s ∧
    Field.text? s .revision = some "12345" ∧ Field.text? s .revision ≠ some "0012345" := by
  have hspelled : spelledBack "0012345" = "12345" := by
    have hinteger : Decimal.int64? "0012345".toList = some 12345 := by decide
    rw [spelledBack, if_neg (by decide), if_neg (by decide), hinteger]
    decide
  have hloaded : Field.text? (ofPart (revisingPart "0012345")) .revision = some "12345" :=
    congrArg some hspelled
  exact ⟨_, loadSettings_revising _, hloaded, by rw [hloaded]; decide⟩

end Workspace

end AttributeRegistry
