import AttributeRegistry.Proofs.Settings.Reading
import AttributeRegistry.Settings.Load

/-!
# Settings in the environment

A variable is for a setting if its name is that of the setting's path, with two underscores in front of
each name. Its value is text, unless it is read as a flag or a number; a list of texts has commas in
between. Words for flags are read as text first, since no numeral begins like them
(`isText_of_word`).

Main statement: `takes_environmentLayer`.
-/

namespace AttributeRegistry

open Settings Setting

/-! ## Names -/

namespace Settings.Field

/-- The name of the variable a setting is read from, in small letters. -/
def variableName (f : Field) : String :=
  Workspace.variableStart ++ String.intercalate "__" f.path

/-- The path of a setting, with periods between the names. -/
def dotted (f : Field) : String :=
  String.intercalate "." f.path

theorem settingName?_of_fold {f : Field} {name : String} (h : fold name = f.variableName) :
    Workspace.settingName? name = some f.dotted := by
  unfold Workspace.settingName?
  rw [h]
  cases f <;> decide +kernel

theorem settingName?_of_not_variable {name : String}
    (h : ¬ Workspace.variableStart.toList <+: (fold name).toList) :
    Workspace.settingName? name = none := by
  unfold Workspace.settingName?
  cases hdrop : Text.dropBeginning? Workspace.variableStart.toList (fold name).toList with
  | none => rfl
  | some rest => exact absurd ⟨rest, (Text.eq_append_of_dropBeginning? hdrop).symm⟩ h

theorem toList_dotted {f : Field} {first : String} {rest : List String} (h : f.path = first :: rest) :
    f.dotted.toList = first.toList ++ rest.flatMap fun name => '.' :: name.toList := by
  rw [dotted, h, String.toList_intercalate, ← Text.joinWith_eq_intercalate, List.map_cons,
    Text.joinWith_cons, List.flatMap_map]
  rfl

theorem isName_of_mem_path {f : Field} {name : String} (h : name ∈ f.path) : IsName name := by
  have hall : ∀ f ∈ all, ∀ name ∈ f.path, name ≠ "" ∧ name.toList.all isNameChar = true := by
    decide
  exact isName_iff.mpr (hall f (mem_all f) name h)

theorem steps?_dotted (f : Field) : ∃ names last, f.path = names ++ [last] ∧
    steps? f.dotted = some (names.map Step.name, .name last) := by
  have hne : f.path ≠ [] := List.ne_nil_of_length_pos (Nat.zero_lt_of_lt f.one_lt_length_path)
  obtain ⟨first, rest, hfirst⟩ := List.exists_cons_of_ne_nil hne
  have hlast := List.dropLast_append_getLast hne
  have hnames : ∀ name ∈ first :: rest, IsName name := fun name h => isName_of_mem_path (hfirst ▸ h)
  exact ⟨_, _, hlast.symm,
    steps?_of_names hnames (hfirst.symm.trans hlast.symm) (toList_dotted hfirst)⟩

/-- An entry with the dotted name of a setting is taken over, and then those behind it. -/
theorem takes_putLayer_cons {q : Part} {f : Field} {a : f.Value} {v : Setting} {rest : Field → Prop}
    {es : List (String × Setting)} (ha : q f = some a) (hread : f.shape.readSetting v = .ok a)
    (hv : ∀ o es, v ≠ table o es) (hrest : ∀ t : Setting, Takes q rest [] t (t.putLayer es))
    (t : Setting) : Takes q (fun g => g = f ∨ rest g) [] t (t.putLayer ((f.dotted, v) :: es)) := by
  obtain ⟨names, last, hpath, hsteps⟩ := f.steps?_dotted
  rw [putLayer_cons hsteps]
  exact (takes_putAt ha hread hv hpath).trans (hrest _)

end Settings.Field

/-! ## Values -/

namespace Workspace

/-- A text that stands for itself in the environment: it looks like neither a flag nor a number. -/
structure IsText (value : String) : Prop where
  ne_true : fold value ≠ "true"
  ne_false : fold value ≠ "false"
  no_integer : Decimal.int64? value.toList = none
  no_double : float? value = none

/-- A text that stands for a flag: a word for it, or a number, which is false if it is zero. -/
inductive IsFlag (value : String) : Bool → Prop
  | yes (h : fold value ∈ ["true", "on", "yes"]) : IsFlag value true
  | no (h : fold value ∈ ["false", "off", "no"]) : IsFlag value false
  | number {n : Int} (h : Decimal.int64? value.toList = some n) : IsFlag value (n != 0)

end Workspace

/-- A variable's value says what a setting is. -/
def Settings.Field.Spells (value : String) : (f : Field) → f.Value → Prop
  | .sources, ss | .skipped, ss =>
    Workspace.IsText value ∧ Text.splitOn ',' value.toList = ss.map String.toList
  | .targets, ts =>
    Workspace.IsText value ∧ Text.splitOn ',' value.toList = ts.map fun t => t.name.toList
  | .strict, b | .checkStrict, b => Workspace.IsFlag value b
  | .version, s | .directory, s | .rustFile, s | .pythonFile, s | .pythonClass, s | .javaFile, s
  | .javaPackage, s | .javaClass, s | .baseline, s | .revision, s | .repository, s =>
    Workspace.IsText value ∧ value = s

namespace Workspace

/-! ## Words and numerals -/

/-- What a numeral begins with. -/
def beginsNumeral (c : Char) : Bool :=
  c.isDigit || ['+', '-', '.'].contains c

theorem ascii_of_beginsNumeral {c : Char} (h : beginsNumeral c = true) :
    c.toNat < 0x80 ∧ c.toLower = c := by
  have hall : ∀ n < 0x80, beginsNumeral (Char.ofNat n) = true →
      (Char.ofNat n).toLower = Char.ofNat n := by decide
  have hlt : c.toNat < 0x80 := by
    rw [beginsNumeral, Bool.or_eq_true, List.contains_iff_mem] at h
    rcases h with h | h
    · rw [Char.isDigit, Bool.and_eq_true, decide_eq_true_eq, decide_eq_true_eq] at h
      have hle : c.toNat ≤ 57 := h.2
      omega
    · simp only [List.mem_cons, List.not_mem_nil, or_false] at h
      rcases h with rfl | rfl | rfl <;> decide
  have hc := hall c.toNat hlt
  rw [Char.ofNat_toNat] at hc
  exact ⟨hlt, hc h⟩

/-- Folding a numeral keeps its beginning. -/
theorem head_fold {value : String} {c : Char} {cs : List Char} (h : value.toList = c :: cs)
    (hc : beginsNumeral c = true) : (fold value).toList.head? = some c := by
  obtain ⟨hlt, hlower⟩ := ascii_of_beginsNumeral hc
  have hdotted : c ≠ '\u0130' := by
    rintro rfl
    simp at hlt
  have hsigma : c ≠ '\u03a3' := by
    rintro rfl
    simp at hlt
  rw [fold, Text.lower, h, String.toList_ofList, Text.lowerBehind]
  simp [hsigma, Text.lowerChar, hdotted, Text.smallForm, hlt, hlower]

/-- A text that begins like no numeral is none. -/
theorem no_numeral {cs : List Char} (h : ∀ c ∈ cs.head?, beginsNumeral c = false) :
    Decimal.int64? cs = none ∧ Decimal.parse? cs = none ∧ Decimal.takeSign cs = (false, cs) := by
  cases cs with
  | nil => exact ⟨by decide, rfl, rfl⟩
  | cons c cs =>
    have hc : beginsNumeral c = false := h c rfl
    simp only [beginsNumeral, Bool.or_eq_false_iff, List.contains_eq_mem, List.mem_cons,
      List.not_mem_nil, or_false, decide_eq_false_iff_not, not_or] at hc
    obtain ⟨hdigit, hplus, hminus, hpoint⟩ := hc
    have hsign : Decimal.takeSign (c :: cs) = (false, c :: cs) := by
      unfold Decimal.takeSign
      split
      · next heq => exact absurd (List.cons.inj heq).1 hminus
      · next heq => exact absurd (List.cons.inj heq).1 hplus
      · rfl
    refine ⟨?_, ?_, hsign⟩
    · rw [Decimal.int64?, hsign]
      simp [hdigit]
    · rw [Decimal.parse?, hsign]
      simp [hdigit, hpoint]

/-- A word that begins like no numeral folds to itself only from such a text. -/
theorem head_of_fold {value word : String} (h : fold value = word)
    (hword : word.toList.head?.any beginsNumeral = false) :
    ∀ c ∈ value.toList.head?, beginsNumeral c = false := by
  intro c hc
  cases hbegins : beginsNumeral c with
  | false => rfl
  | true =>
    obtain ⟨cs, hcs⟩ := List.head?_eq_some_iff.mp hc
    have hhead := head_fold hcs hbegins
    rw [h] at hhead
    rw [hhead, Option.any_some, hbegins] at hword
    cases hword

/-- A word that no numeral begins like is no double, but for those that name some. -/
theorem float?_eq_none_of_fold {value word : String} (h : fold value = word)
    (hword : word.toList.head?.any beginsNumeral = false)
    (hne : word ∉ ["inf", "infinity", "nan"]) : float? value = none := by
  obtain ⟨-, hparse, hsign⟩ := no_numeral (head_of_fold h hword)
  simp only [List.mem_cons, List.not_mem_nil, or_false, not_or] at hne
  rw [float?, hsign]
  dsimp only
  rw [String.ofList_toList, h]
  split
  · exact absurd rfl hne.1
  · exact absurd rfl hne.2.1
  · exact absurd rfl hne.2.2
  · exact hparse

/-- Words are text. -/
theorem isText_of_word {value : String} (h : fold value ∈ ["on", "yes", "off", "no"]) :
    IsText value := by
  obtain ⟨word, hword, hfold⟩ : ∃ word ∈ ["on", "yes", "off", "no"], fold value = word := ⟨_, h, rfl⟩
  have hbegin : ∀ word ∈ ["on", "yes", "off", "no"],
      word.toList.head?.any beginsNumeral = false := by decide
  have hdouble : ∀ word ∈ ["on", "yes", "off", "no"], word ∉ ["inf", "infinity", "nan"] := by decide
  have hint := (no_numeral (head_of_fold hfold (hbegin word hword))).1
  have hfloat := float?_eq_none_of_fold hfold (hbegin word hword) (hdouble word hword)
  refine ⟨?_, ?_, hint, hfloat⟩
  · rintro heq
    rw [heq] at h
    revert h
    decide
  · rintro heq
    rw [heq] at h
    revert h
    decide

/-- Integers are no words. -/
theorem fold_ne_of_int64? {value : String} {n : Int} (h : Decimal.int64? value.toList = some n)
    (word : String)
    (hword : word.toList.head?.any beginsNumeral = false) : fold value ≠ word := by
  intro hfold
  rw [(no_numeral (head_of_fold hfold hword)).1] at h
  cases h

/-! ## What variables say -/

theorem variableValue_of_isText {name value : String} (h : IsText value) :
    variableValue name value =
      if listNames.contains name then
        .list environmentOrigin ((Text.splitOn ',' value.toList).map fun part =>
          .text environmentOrigin (String.ofList part))
      else .text environmentOrigin value := by
  rw [variableValue]
  simp only [h.ne_true, h.ne_false, if_false, h.no_integer, h.no_double]

/-- A list in a variable reads as the texts it has commas in between. -/
theorem readSetting_variableValue {α : Type} {s : Shape α} {as : List α} {write : α → String}
    {name value : String} (hname : listNames.contains name = true) (htext : IsText value)
    (hparts : Text.splitOn ',' value.toList = as.map fun a => (write a).toList)
    (h : ∀ a, s.readSetting (text environmentOrigin (write a)) = .ok a) :
    (Shape.list s).readSetting (variableValue name value) = .ok as := by
  rw [variableValue_of_isText htext, if_pos hname, hparts, List.map_map]
  simp only [Function.comp_def, String.ofList_toList]
  exact readSetting_texts h

/-- A variable for a flag reads as it. -/
theorem readSetting_flag {name value : String} {b : Bool} (hname : listNames.contains name = false)
    (h : IsFlag value b) : Shape.flag.readSetting (variableValue name value) = .ok b := by
  have hword : fold value ∈ ["on", "yes", "off", "no"] →
      variableValue name value = .text environmentOrigin value := by
    intro h
    rw [variableValue_of_isText (isText_of_word h), hname]
    rfl
  rw [Shape.readSetting]
  cases h with
  | yes h =>
    by_cases htrue : fold value = "true"
    · rw [variableValue]
      simp only [htrue, if_true]
      rfl
    · have h : fold value = "on" ∨ fold value = "yes" := by simpa [htrue] using h
      rw [hword (by rcases h with h | h <;> simp [h])]
      rcases h with h | h <;> simp [toFlag, h]
  | no h =>
    by_cases hfalse : fold value = "false"
    · rw [variableValue]
      simp [hfalse, toFlag]
    · have h : fold value = "off" ∨ fold value = "no" := by simpa [hfalse] using h
      rw [hword (by rcases h with h | h <;> simp [h])]
      rcases h with h | h <;> simp [toFlag, h]
  | number h =>
    rw [variableValue]
    simp only [fold_ne_of_int64? h "true" (by decide), fold_ne_of_int64? h "false" (by decide),
      if_false, h]
    rfl

/-- **What a variable says a setting is reads as this setting.** -/
theorem readSetting_of_spells {f : Field} {a : f.Value} {value : String} (h : f.Spells value a) :
    f.shape.readSetting (variableValue f.dotted value) = .ok a := by
  have htext : ∀ {name s : String}, IsText value → value = s → listNames.contains name = false →
      Shape.text.readSetting (variableValue name value) = .ok s := by
    intro name s htext heq hname
    rw [variableValue_of_isText htext, hname, heq]
    rfl
  have hpath : ∀ {name s : String}, IsText value → value = s → listNames.contains name = false →
      Path.shape.readSetting (variableValue name value) = .ok s := by
    intro name s htext heq hname
    rw [variableValue_of_isText htext, hname, heq]
    rfl
  cases f with
  | sources => exact readSetting_variableValue (by decide) h.1 h.2 fun _ => rfl
  | skipped => exact readSetting_variableValue (by decide) h.1 h.2 fun _ => rfl
  | targets => exact readSetting_variableValue (by decide) h.1 h.2 fun t => by cases t <;> rfl
  | strict => exact readSetting_flag (by decide) h
  | checkStrict => exact readSetting_flag (by decide) h
  | directory => exact hpath h.1 h.2 (by decide)
  | baseline => exact hpath h.1 h.2 (by decide)
  | repository => exact hpath h.1 h.2 (by decide)
  | _ => exact htext h.1 h.2 (by decide)

theorem variableValue_ne_table (name value : String) (o es) :
    variableValue name value ≠ .table o es := by
  intro h
  unfold variableValue at h
  dsimp only at h
  split at h
  · cases h
  split at h
  · cases h
  split at h
  · cases h
  split at h
  · cases h
  split at h
  · cases h
  · cases h

/-! ## The layer -/

/-- The environment says what a part says: each variable is for something else, or says what the part
says about a setting, and no setting is missing. -/
structure EnvironmentGives (environment : List (String × String)) (q : Part) : Prop where
  admits : ∀ e ∈ environment, variableStart.toList <+: (fold e.1).toList →
    ∃ f, ∃ a : f.Value, fold e.1 = f.variableName ∧ q f = some a ∧ f.Spells e.2 a
  mentions : ∀ f, q f ≠ none → ∃ e ∈ environment, fold e.1 = f.variableName

theorem isPrefix_variableName (f : Field) : variableStart.toList <+: f.variableName.toList := by
  rw [Field.variableName, String.toList_append]
  exact List.prefix_append _ _

theorem variableName_injective {f g : Field} (h : f.variableName = g.variableName) : f = g := by
  have hall : ∀ f ∈ Field.all, ∀ g ∈ Field.all, f.variableName = g.variableName → f = g := by decide
  exact hall f (Field.mem_all f) g (Field.mem_all g) h

/-- The variables that are for settings are taken over, one after the other. -/
theorem takes_variables {q : Part} (w : Workspace) :
    ∀ (es : List (String × String)) (t : Setting), (∀ e ∈ es, variableStart.toList <+:
      (fold e.1).toList → ∃ f, ∃ a : f.Value, fold e.1 = f.variableName ∧ q f = some a ∧
        f.Spells e.2 a) →
      Takes q (fun f => ∃ e ∈ es, fold e.1 = f.variableName) [] t
        (t.putLayer { w with environment := es }.environmentLayer)
  | [], t, _ => Takes.refl.congr fun f => by simp
  | (name, value) :: es, t, h => by
    obtain ⟨he, hes⟩ := List.forall_mem_cons.mp h
    by_cases hvariable : variableStart.toList <+: (fold name).toList
    · obtain ⟨f, a, hname, ha, hspells⟩ := he hvariable
      have hlayer : { w with environment := (name, value) :: es }.environmentLayer =
          (f.dotted, variableValue f.dotted value) ::
            { w with environment := es }.environmentLayer := by
        simp [environmentLayer, Field.settingName?_of_fold hname]
      have hput := Field.takes_putLayer_cons ha (readSetting_of_spells hspells)
        (variableValue_ne_table _ _) fun t => takes_variables w es t hes
      rw [hlayer]
      refine (hput t).congr fun g => ?_
      have hiff : g = f ↔ fold name = g.variableName :=
        ⟨fun heq => heq ▸ hname, fun heq => variableName_injective (heq.symm.trans hname)⟩
      simp only [List.mem_cons, exists_eq_or_imp, hiff]
    · have hlayer : { w with environment := (name, value) :: es }.environmentLayer =
          { w with environment := es }.environmentLayer := by
        simp [environmentLayer, Field.settingName?_of_not_variable hvariable]
      rw [hlayer]
      refine (takes_variables w es t hes).congr fun g => ?_
      have hne : fold name ≠ g.variableName := fun heq => hvariable (heq ▸ isPrefix_variableName g)
      simp [hne]

/-- **What the environment says is taken over** when its layer is put over another one. -/
theorem takes_environmentLayer {w : Workspace} {q : Part} (h : EnvironmentGives w.environment q)
    (t : Setting) : Takes q (fun f => q f ≠ none) [] t (t.putLayer w.environmentLayer) := by
  refine (takes_variables w w.environment t h.admits).congr fun f => ⟨?_, h.mentions f⟩
  rintro ⟨e, he, hname⟩ hnone
  obtain ⟨g, a, hg, ha, -⟩ := h.admits e he (hname ▸ isPrefix_variableName f)
  obtain rfl := variableName_injective (hname.symm.trans hg)
  rw [hnone] at ha
  cases ha

end Workspace

end AttributeRegistry
