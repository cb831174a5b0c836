import AttributeRegistry.Proofs.Settings.Environment
import AttributeRegistry.Proofs.Settings.Files
import AttributeRegistry.Proofs.Toml.Document
import Mathlib.Data.List.Forall2

/-!
# Every setting comes from the highest layer that has it

Each file and the environment say what some settings are and nothing about the others
(`Workspace.Gives`). Putting the layers one over the other, from the lowest to the highest, therefore
leaves for each setting what the last layer says that says anything about it, whatever the layers say
about the settings around it (`Shows.over`).

Main statement: `loadSettings_layered`.
-/

namespace AttributeRegistry

open Settings Setting

/-! ## One layer over the others -/

/-- Nothing is said about any setting. -/
def Settings.Part.nothing : Part :=
  fun _ => none

/-- What some parts say together; an earlier one has the last word. -/
def Settings.Part.first (qs : List Part) : Part :=
  fun f => qs.findSome? fun q => q f

theorem Settings.Part.first_cons (q : Part) (rest : List Part) :
    Part.first (q :: rest) = fun f => (q f).or (Part.first rest f) := by
  funext f
  rw [first, List.findSome?_cons]
  cases q f <;> rfl

theorem Settings.Part.first_cons_of_none {q : Part} (h : ∀ f, q f = none) (rest : List Part) :
    Part.first (q :: rest) = .first rest := by
  rw [first_cons]
  funext f
  rw [h f, Option.none_or]

/-- The entries of a layer say what a part says: put over anything, they are taken over. -/
def Setting.LayerSays (q : Part) (layer : List (String × Setting)) : Prop :=
  ∀ t, Takes q (fun f => q f ≠ none) [] t (t.putLayer layer)

namespace Setting

variable {t t' : Setting} {p q : Part}

theorem layerSays_nil (h : ∀ f, q f = none) : LayerSays q [] :=
  fun _ => Takes.refl.congr fun f => by simp [h f]

/-- Before the first layer nothing is said. -/
theorem shows_empty : empty.Shows .nothing where
  sectioned := by
    intro more _ u hu
    cases more with
    | nil =>
      obtain rfl := Option.some.inj hu
      exact isTable_empty
    | cons name more => cases hu
  reads := nofun
  absent := by
    intro f _
    cases f <;> rfl

/-- **What one more layer says is over what the layers before say.** -/
theorem Shows.over (h : t.Shows p) (hover : Takes q (fun f => q f ≠ none) [] t t') :
    t'.Shows fun f => (q f).or (p f) where
  sectioned := hover.sectioned h.sectioned
  reads := by
    intro f a ha
    cases hq : q f with
    | none =>
      rw [hq, Option.none_or] at ha
      obtain ⟨v, hv, hread⟩ := h.reads f a ha
      exact ⟨v, (hover.kept f f.path rfl (not_not.mpr hq)).trans hv, hread⟩
    | some b =>
      rw [hq, Option.some_or] at ha
      obtain ⟨c, v, hc, hv, hread⟩ := hover.taken f f.path rfl (by simp [hq])
      rw [hq] at hc
      obtain rfl := Option.some.inj (hc.symm.trans ha)
      exact ⟨v, hv, hread⟩
  absent := by
    intro f hf
    obtain ⟨hq, hp⟩ := Option.or_eq_none_iff.mp hf
    exact (hover.kept f f.path rfl (not_not.mpr hq)).trans (h.absent f hp)

/-- What the layers say together, the last one first. -/
theorem shows_layers {qs : List Part} {layers : List (List (String × Setting))}
    (h : List.Forall₂ LayerSays qs layers) :
    (layers.foldl putLayer empty).Shows (.first qs.reverse) := by
  have hgo : ∀ t p, t.Shows p →
      (layers.foldl putLayer t).Shows fun f => (Part.first qs.reverse f).or (p f) := by
    induction h with
    | nil => exact fun t p ht => ht
    | cons hlayer _ ih =>
      intro t p ht
      have hrest := ih _ _ (ht.over (hlayer t))
      rw [List.foldl_cons]
      refine Eq.mp (congrArg _ (funext fun f => ?_)) hrest
      simp [Part.first, List.findSome?_append, Option.or_assoc]
  have hempty := hgo empty .nothing shows_empty
  refine Eq.mp (congrArg _ (funext fun f => ?_)) hempty
  rw [Part.nothing, Option.or_none]

end Setting

/-! ## Files -/

namespace Datum

theorem self_mem_nodes (path : List String) (d : Datum) : (path, d) ∈ d.nodes path := by
  cases d <;> exact List.mem_cons_self

theorem mem_nodesIn {path : List String} {es : List (Datum × Datum)} {k d : Datum}
    (h : (k, d) ∈ es) : (path ++ [k.text?.getD ""], d) ∈ nodesIn path es := by
  induction es with
  | nil => cases h
  | cons e es ih =>
    rw [nodesIn, List.mem_append]
    rcases List.mem_cons.mp h with rfl | h
    · exact .inl (self_mem_nodes _ d)
    · exact .inr (ih h)

theorem mem_ofEntries {origin : String} {es : List (Datum × Datum)} {e : String × Setting}
    (h : e ∈ ofEntries origin es) : ∃ k d, (k, d) ∈ es ∧ e.1 = k.text?.getD "" := by
  induction es with
  | nil => cases h
  | cons first es ih =>
    obtain ⟨k, d⟩ := first
    rw [ofEntries] at h
    rcases List.mem_cons.mp h with rfl | h
    · exact ⟨k, d, List.mem_cons_self, rfl⟩
    · obtain ⟨k', d', hmem, heq⟩ := ih h
      exact ⟨k', d', List.mem_cons_of_mem _ hmem, heq⟩

/-- At the top there are sections only, so a file's own names are no paths. -/
theorem steps?_of_mem_sections {name : String} (h : [name] ∈ Field.sections) :
    steps? name = some ([], .name name) := by
  have hall : ∀ path ∈ Field.sections, ∀ name ∈ path,
      name ≠ "" ∧ name.toList.all isNameChar = true := by decide
  have hname : IsName name := isName_iff.mpr (hall _ h name (List.mem_singleton.mpr rfl))
  exact @steps?_of_names name name [] [] name (List.forall_mem_singleton.mpr hname) rfl (by simp)

variable {d : Datum} {q : Part}

/-- What a file has a node for, the part says something about. -/
theorem Gives.ne_none (h : d.Gives q) {f : Field} (hf : f.path ∈ (d.nodes []).map Prod.fst) :
    q f ≠ none := by
  obtain ⟨node, hnode, hpath⟩ := List.mem_map.mp hf
  have hadmits := h.admits node hnode
  rw [hpath] at hadmits
  obtain ⟨es, -, hsection⟩ | ⟨g, a, hg, ha, -⟩ := hadmits.cases
  · exact absurd hsection Field.path_not_mem_sections
  · obtain rfl := Field.eq_of_path_eq hg
    simp [ha]

/-- **A file's layer says what the file says.** -/
theorem Gives.exists_layer (h : d.Gives q) (origin : String) :
    ∃ layer, Setting.ofDatum origin d = .table (some origin) layer ∧ LayerSays q layer := by
  obtain ⟨es, rfl, -⟩ | ⟨f, a, hpath, -⟩ := (h.admits _ (self_mem_nodes [] d)).cases
  · have hnodes : ∀ node ∈ nodesIn [] es, q.Admits node.1 node.2 :=
      fun node hnode => h.admits node (List.mem_cons_of_mem _ hnode)
    have hnames : ∀ e ∈ ofEntries origin es, steps? e.1 = some ([], .name e.1) := by
      intro e he
      obtain ⟨k, d, hmem, heq⟩ := mem_ofEntries he
      rw [heq]
      refine steps?_of_mem_sections ?_
      obtain ⟨_, -, hsection⟩ | ⟨f, a, hpath, -⟩ := (hnodes _ (mem_nodesIn hmem)).cases
      · exact hsection
      · have hlength := f.one_lt_length_path
        rw [hpath] at hlength
        exact absurd hlength (lt_irrefl 1)
    refine ⟨ofEntries origin es, ofDatum.eq_7 .., fun t => ?_⟩
    rw [putLayer_eq_putAll hnames]
    refine (takes_putAll [] t es hnodes).congr fun f => ⟨fun hf => h.ne_none ?_, fun hf => ?_⟩
    · rw [nodes]
      exact List.mem_cons_of_mem _ hf
    · have hmem := h.mentions f hf
      rw [nodes] at hmem
      refine (List.mem_cons.mp hmem).resolve_left fun hnil => ?_
      cases f <;> cases hnil
  · cases f <;> cases hpath

end Datum

namespace Workspace

variable {w : Workspace} {q : Part}

/-- The settings file of a path says what a part says: nothing if it is not there and need not be. -/
inductive FileGives (w : Workspace) (required : Bool) (path : String) (q : Part) : Prop
  | absent (hoptional : required = false) (hfile : w.settingsFile? path = none)
      (hnothing : ∀ f, q f = none)
  | present {file text : String} {d : Datum} (hfile : w.settingsFile? path = some file)
      (hread : w.files.read file = .ok text) (hparse : Toml.parse text = .ok d) (hgives : d.Gives q)

/-- What each layer says: the files of the project, from the lowest to the highest, that of the user,
the one that is named, and the environment. -/
structure Gives (w : Workspace) (named : Option String) (project : List Part)
    (user file environment : Part) : Prop where
  project : List.Forall₂ (w.FileGives false) projectFiles project
  user : if w.files.exists? w.userFile then w.FileGives false w.userFile user
    else ∀ f, user f = none
  file : match named with
    | some path => w.FileGives true path file
    | none => ∀ f, file f = none
  environment : EnvironmentGives w.environment environment

/-- **The layer of a settings file says what the file says.** -/
theorem FileGives.exists_layer {required : Bool} {path : String} (h : w.FileGives required path q) :
    ∃ layer, w.fileLayer required path = .ok layer ∧ LayerSays q layer := by
  unfold fileLayer
  cases h with
  | absent hoptional hfile hnothing =>
    rw [hfile, hoptional]
    exact ⟨[], rfl, layerSays_nil hnothing⟩
  | @present file text d hfile hread hparse hgives =>
    obtain ⟨layer, hlayer, hsays⟩ := hgives.exists_layer (plainPath file)
    refine ⟨layer, ?_, hsays⟩
    rw [hfile]
    dsimp only
    rw [hread]
    dsimp only
    rw [hparse]
    simp only [Bind.bind, Except.bind, hlayer]
    rfl

theorem exists_mapM_fileLayer {paths : List String} {qs : List Part}
    (h : List.Forall₂ (w.FileGives false) paths qs) :
    ∃ layers, paths.mapM (w.fileLayer false) = .ok layers ∧ List.Forall₂ LayerSays qs layers := by
  induction h with
  | nil => exact ⟨[], rfl, .nil⟩
  | cons hfile _ ih =>
    obtain ⟨layer, hlayer, hsays⟩ := hfile.exists_layer
    obtain ⟨layers, hlayers, hall⟩ := ih
    refine ⟨layer :: layers, ?_, .cons hsays hall⟩
    rw [List.mapM_cons, hlayer, hlayers]
    rfl

/-- The layers of the files say what the files say; a file that is not looked for says nothing. -/
theorem Gives.exists_fileLayers {named : Option String} {project : List Part}
    {user file environment : Part} (h : w.Gives named project user file environment) :
    ∃ qs layers, w.fileLayers named = .ok layers ∧ List.Forall₂ LayerSays qs layers ∧
      Part.first qs.reverse = .first (file :: user :: project.reverse) := by
  obtain ⟨users, husers, hfirst⟩ : ∃ users, List.Forall₂ (w.FileGives false)
      (if w.files.exists? w.userFile then [w.userFile] else []) users ∧
        Part.first (users.reverse ++ project.reverse) = .first (user :: project.reverse) := by
    have huser := h.user
    by_cases hexists : w.files.exists? w.userFile = true
    · rw [if_pos hexists] at huser ⊢
      exact ⟨[user], .cons huser .nil, rfl⟩
    · rw [if_neg hexists] at huser ⊢
      exact ⟨[], .nil, (Part.first_cons_of_none huser _).symm⟩
  obtain ⟨layers, hlayers, hsays⟩ := exists_mapM_fileLayer (List.rel_append h.project husers)
  rw [← List.reverse_append] at hfirst
  have hfile := h.file
  unfold fileLayers
  dsimp only
  rw [hlayers]
  cases named with
  | none =>
    exact ⟨_, layers, rfl, hsays, hfirst.trans (Part.first_cons_of_none hfile _).symm⟩
  | some path =>
    obtain ⟨layer, hlayer, hsaysFile⟩ := FileGives.exists_layer hfile
    refine ⟨_, layers ++ [layer], ?_, List.rel_append hsays (.cons hsaysFile .nil), ?_⟩
    · dsimp only [Bind.bind, Except.bind]
      rw [hlayer]
      rfl
    · rw [List.reverse_append, List.reverse_singleton, List.singleton_append, Part.first_cons,
        Part.first_cons, hfirst]

/-- What the files say, with what the environment says over it, is what the settings are. -/
theorem Gives.loadSettings_eq {named : Option String} {project : List Part}
    {user file environment : Part} (h : w.Gives named project user file environment) :
    w.loadSettings named =
      .ok (ofPart (.first (environment :: file :: user :: project.reverse))) := by
  obtain ⟨qs, layers, hlayers, hsays, hfirst⟩ := h.exists_fileLayers
  have hshows := shows_layers
    (List.rel_append hsays (.cons (takes_environmentLayer h.environment) .nil))
  rw [List.reverse_append, List.reverse_singleton, List.singleton_append, Part.first_cons, hfirst,
    ← Part.first_cons] at hshows
  unfold loadSettings layered
  rw [hlayers]
  simp only [Bind.bind, Except.bind, Pure.pure, Except.pure, hshows.readSetting]
  rfl

/-- **Settings are loaded, and each has the value of the highest layer that says anything about it**:
of the environment, the file that is named, that of the user, those of the project from the last to the
first, or the default one. -/
theorem loadSettings_layered {named : Option String} {project : List Part}
    {user file environment : Part} (h : w.Gives named project user file environment) :
    ∃ s, w.loadSettings named = .ok s ∧ ∀ f, f.get s =
      ((environment :: file :: user :: project.reverse).findSome? fun q => q f).or
        (f.get .default) :=
  ⟨_, h.loadSettings_eq, get_ofPart _⟩

/-- The file of the project has a version and is strict about what was generated. -/
private def projectSections : List Toml.Section :=
  [⟨"registry", [("version", .text "1.0.0")]⟩, ⟨"check", [("strict", .flag true)]⟩]

/-- Another file has another version. -/
private def localSections : List Toml.Section :=
  [⟨"registry", [("version", .text "2.0.0")]⟩]

private def deskFiles : FileTree :=
  ⟨[(["semconv.toml"], .file (Toml.writeSections projectSections).toUTF8),
    (["local.toml"], .file (Toml.writeSections localSections).toUTF8)], []⟩

/-- A variable says not to be strict. -/
private def desk : Workspace :=
  ⟨deskFiles, [("PATH", "/bin"), ("SEMCONV__CHECK__STRICT", "off")], "/home/user"⟩

private def deskProject : Part
  | .version => some "1.0.0"
  | .checkStrict => some true
  | _ => none

private def deskFile : Part
  | .version => some "2.0.0"
  | _ => none

private def deskEnvironment : Part
  | .checkStrict => some false
  | _ => none

private theorem gives_deskProject :
    Datum.Gives (.dict [(.text "registry", .dict [(.text "version", .text "1.0.0")]),
      (.text "check", .dict [(.text "strict", .bool true)])]) deskProject where
  admits := by
    simp only [Datum.nodes, Datum.nodesIn, List.forall_mem_cons, List.cons_append, List.nil_append,
      Part.Admits]
    exact ⟨by decide, by decide, ⟨.version, _, rfl, rfl, rfl⟩, by decide,
      ⟨.checkStrict, _, rfl, rfl, rfl⟩, List.forall_mem_nil _⟩
  mentions := by
    intro f hf
    cases f <;> first | exact absurd rfl hf | decide

private theorem gives_deskFile :
    Datum.Gives (.dict [(.text "registry", .dict [(.text "version", .text "2.0.0")])]) deskFile where
  admits := by
    simp only [Datum.nodes, Datum.nodesIn, List.forall_mem_cons, List.cons_append, List.nil_append,
      Part.Admits]
    exact ⟨by decide, by decide, ⟨.version, _, rfl, rfl, rfl⟩, List.forall_mem_nil _⟩
  mentions := by
    intro f hf
    cases f <;> first | exact absurd rfl hf | decide

private theorem gives_deskEnvironment : EnvironmentGives desk.environment deskEnvironment where
  admits := by
    have hother : ¬ variableStart.toList <+: (fold "PATH").toList := by decide
    have hword : fold "off" ∈ ["false", "off", "no"] := by decide
    refine List.forall_mem_cons.mpr ⟨fun h => absurd h hother, List.forall_mem_singleton.mpr fun _ =>
      ⟨.checkStrict, false, by decide, rfl, .no hword⟩⟩
  mentions := by
    intro f hf
    cases f
    case checkStrict => exact ⟨_, List.mem_cons_of_mem _ List.mem_cons_self, by decide⟩
    all_goals exact absurd rfl hf

private theorem find_desk :
    ∀ path ∈ desk.userFile :: [".semconv.toml", "config/semconv.toml"].flatMap pathsOf,
      (deskFiles.find path).toOption = none := by
  have hfollow : ∀ path ∈ desk.userFile :: [".semconv.toml", "config/semconv.toml"].flatMap pathsOf,
      ((deskFiles.follow (if path.startsWith "/" then [] else deskFiles.workingDirectory)
        (Text.splitOn '/' path.toList)).toOption.bind deskFiles.node?).isNone = true := by
    decide +kernel
  exact fun path hpath =>
    FileTree.toOption_find_eq_none (Option.isNone_iff_eq_none.mp (hfollow path hpath))

private theorem fileGives_desk {path : String} {parts : List Toml.Section} {q : Part}
    {required : Bool} (hextension : Path.extension? path = some "toml")
    (hl : deskFiles.locate path = .ok [path])
    (hnode : deskFiles.node? [path] = some (.file (Toml.writeSections parts).toUTF8))
    (hparse : Toml.parse (Toml.writeSections parts) =
      .ok (.dict (parts.map fun part => (.text part.name, part.toDatum))))
    (hgives : Datum.Gives (.dict (parts.map fun part => (.text part.name, part.toDatum))) q) :
    desk.FileGives required path q :=
  .present (settingsFile?_eq_some hextension hl hnode) (FileTree.read_eq_of_locate hl hnode) hparse
    hgives

private theorem absent_desk {path : String} (h : path ∈ [".semconv.toml", "config/semconv.toml"]) :
    desk.FileGives false path .nothing := by
  refine .absent rfl (settingsFile?_eq_none fun p hp => isFile_eq_false ?_) fun _ => rfl
  exact find_desk p (List.mem_cons_of_mem _ (List.mem_flatMap.mpr ⟨path, h, hp⟩))

/-- The variable is over the files, and the file that is named is over that of the project. -/
theorem loadSettings_desk : ∃ s, desk.loadSettings (some "local.toml") = .ok s ∧
    s.source.version = some "2.0.0" ∧ s.check.strict = false ∧ s.output.directory = "generated" := by
  have hproject : deskFiles.locate "semconv.toml" = .ok ["semconv.toml"] :=
    FileTree.locate_eq_ok_iff.mpr ⟨by decide, by decide +kernel⟩
  have hfile : deskFiles.locate "local.toml" = .ok ["local.toml"] :=
    FileTree.locate_eq_ok_iff.mpr ⟨by decide, by decide +kernel⟩
  have huser : deskFiles.exists? desk.userFile = false := by
    unfold FileTree.exists?
    rw [find_desk _ List.mem_cons_self]
    rfl
  have hplain : ∀ part ∈ projectSections ++ localSections,
      part.Plain ∧ Toml.IsBare part.name := by
    simp only [Toml.plain_iff, Toml.isBare_iff]
    decide
  rw [List.forall_mem_append] at hplain
  have hparseProject := Toml.parse_writeSections (List.cons_ne_nil _ _) hplain.1 (by decide)
  have hparseFile := Toml.parse_writeSections (List.cons_ne_nil _ _) hplain.2 (by decide)
  have hgives : desk.Gives (some "local.toml") [deskProject, .nothing, .nothing] .nothing deskFile
      deskEnvironment :=
    { project := .cons (fileGives_desk (by decide) hproject rfl hparseProject gives_deskProject)
        (.cons (absent_desk (by decide)) (.cons (absent_desk (by decide)) .nil))
      user := by
        rw [show desk.files.exists? desk.userFile = false from huser]
        exact fun _ => rfl
      file := fileGives_desk (by decide) hfile rfl hparseFile gives_deskFile
      environment := gives_deskEnvironment }
  obtain ⟨s, hs, hget⟩ := loadSettings_layered hgives
  have hversion := hget .version
  have hstrict := hget .checkStrict
  have hdirectory := hget .directory
  exact ⟨s, hs, hversion, Option.some.inj hstrict, Option.some.inj hdirectory⟩

end Workspace

end AttributeRegistry
