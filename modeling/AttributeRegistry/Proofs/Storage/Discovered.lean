import AttributeRegistry.Proofs.Storage.Ascending
import AttributeRegistry.Proofs.Storage.Trees

/-!
# Documents that are discovered

A directory offers the files with the name of a document that are reached without entering a directory
whose name is skipped (`DocumentIn`, `Offers`). Skipping looks at every name below the directory though,
also at that of a file: what is listed are the documents whose own name is not skipped (`Lists`).

Main statement: the paths listed are exactly these, each once and in order, whatever the order and the
spelling of the given ones is (`discover_exact`).
-/

namespace AttributeRegistry

/-! ## Names of documents -/

namespace Path

/-- What holds no period is passed from behind. -/
theorem takeWhile_reverse_append {cs : List Char} (h : '.' ∉ cs) (rest : List Char) :
    (cs.reverse ++ rest).takeWhile (· != '.') = cs.reverse ++ rest.takeWhile (· != '.') := by
  refine List.takeWhile_append_of_pos fun c hc => ?_
  rw [bne_iff_ne]
  rintro rfl
  exact h (List.mem_reverse.mp hc)

theorem extensionOf?_of_not_mem {name : List Char} (h : '.' ∉ name) : extensionOf? name = none := by
  have htake := takeWhile_reverse_append h []
  rw [List.append_nil, List.takeWhile_nil, List.append_nil] at htake
  unfold extensionOf?
  simp [htake]

theorem extensionOf?_append (stem : List Char) {ending : List Char} (h : '.' ∉ ending) :
    extensionOf? (stem ++ '.' :: ending) = if stem = [] then none else some ending := by
  have htake : (stem ++ '.' :: ending).reverse.takeWhile (· != '.') = ending.reverse := by
    rw [List.reverse_append, List.reverse_cons, List.append_assoc, takeWhile_reverse_append h]
    simp
  unfold extensionOf?
  dsimp only
  rw [htake]
  cases stem with
  | nil => simp
  | cons c cs =>
    have hlength : ending.reverse.length + 1 < (c :: cs ++ '.' :: ending).length := by
      rw [List.length_append, List.length_reverse, List.length_cons, List.length_cons]
      omega
    rw [if_pos hlength, if_neg (List.cons_ne_nil c cs), List.reverse_reverse]

/-- The extension of a name is what stands behind its last period, if something is in front of it. -/
theorem extensionOf?_eq_some_iff {name ending : List Char} :
    extensionOf? name = some ending ↔
      ∃ stem, stem ≠ [] ∧ '.' ∉ ending ∧ name = stem ++ '.' :: ending := by
  constructor
  · intro h
    by_cases hperiod : '.' ∈ name
    · -- the last period is the first one from behind
      obtain ⟨as, bs, hname, hnone⟩ := List.eq_append_cons_of_mem (List.mem_reverse.mpr hperiod)
      rw [List.reverse_eq_iff, List.reverse_append, List.reverse_cons, List.append_assoc,
        List.singleton_append] at hname
      rw [← List.mem_reverse] at hnone
      rw [hname, extensionOf?_append _ hnone] at h
      split at h
      · cases h
      · next hstem =>
        cases h
        exact ⟨bs.reverse, hstem, hnone, hname⟩
    · rw [extensionOf?_of_not_mem hperiod] at h
      cases h
  · rintro ⟨stem, hstem, hending, rfl⟩
    rw [extensionOf?_append stem hending, if_neg hstem]

end Path

namespace FileTree

/-- Names of documents: something in front of one of their endings. -/
def DocumentName (name : String) : Prop :=
  ∃ stem ending, stem ≠ "" ∧ ending ∈ ["yaml", "yml", "json"] ∧ name = stem ++ "." ++ ending

theorem isSome_ofPath?_iff {p name : String} (h : Path.fileName? p = some name) :
    (Format.ofPath? p).isSome = true ↔ DocumentName name := by
  have hformat : (Format.ofPath? p).isSome = true ↔
      ∃ ending ∈ ["yaml", "yml", "json"], Path.extension? p = some ending := by
    unfold Format.ofPath?
    split <;> simp_all
  have hmap : Path.extension? p = (Path.extensionOf? name.toList).map String.ofList := by
    unfold Path.extension?
    rw [h]
    exact Option.map_eq_bind.symm
  have hextension : ∀ ending, Path.extension? p = some ending ↔
      Path.extensionOf? name.toList = some ending.toList := by
    intro ending
    rw [hmap, Option.map_eq_some_iff]
    constructor
    · rintro ⟨cs, hcs, rfl⟩
      rw [hcs, String.toList_ofList]
    · exact fun hcs => ⟨ending.toList, hcs, String.ofList_toList⟩
  rw [hformat]
  constructor
  · rintro ⟨ending, hmem, hending⟩
    obtain ⟨stem, hstem, -, hname⟩ := Path.extensionOf?_eq_some_iff.mp ((hextension ending).mp hending)
    refine ⟨String.ofList stem, ending, ?_, hmem, ?_⟩
    · rw [Ne, ← String.toList_eq_nil_iff, String.toList_ofList]
      exact hstem
    · rw [← String.toList_inj, hname]
      simp
  · rintro ⟨stem, ending, hstem, hmem, rfl⟩
    refine ⟨ending, hmem, (hextension ending).mpr (Path.extensionOf?_eq_some_iff.mpr ?_)⟩
    have hdot : ∀ ending ∈ ["yaml", "yml", "json"], '.' ∉ ending.toList := by decide
    refine ⟨stem.toList, ?_, hdot ending hmem, by simp⟩
    rwa [Ne, String.toList_eq_nil_iff]

variable {t : FileTree} {l : Location} {path p : String} {skipped names : List String}

/-! ## Documents in a directory -/

/-- The directories below a location that are reached without entering one whose name is skipped. -/
inductive Reached (t : FileTree) (skipped : List String) (l : Location) : List String → Prop
  | here : Reached t skipped l []
  | enter {names : List String} {name : String} : Reached t skipped l names →
      t.node? (l ++ (names ++ [name])) = some .directory → name ∉ skipped →
      Reached t skipped l (names ++ [name])

/-- A directory of a tree is reached iff no name on the way to it is skipped. -/
theorem IsTree.reached_iff (ht : t.IsTree) (h : t.node? (l ++ names) = some .directory) :
    Reached t skipped l names ↔ ∀ name ∈ names, name ∉ skipped := by
  constructor
  · intro hreached
    clear h
    induction hreached with
    | here => simp
    | enter _ _ hname ih =>
      rw [List.forall_mem_append, List.forall_mem_singleton]
      exact ⟨ih, hname⟩
  · intro hnames
    induction names using List.reverseRecOn with
    | nil => exact .here
    | append_singleton names name ih =>
      rw [List.forall_mem_append, List.forall_mem_singleton] at hnames
      exact .enter (ih (ht.directory_of_concat h) hnames.1) h hnames.2

/-- A document below a given directory: a file with the name of a document, in a directory that is
reached. -/
def DocumentIn (t : FileTree) (skipped : List String) (path : String) (names : List String)
    (name : String) : Prop :=
  DocumentName name ∧ ∃ l content, t.locate path = .ok l ∧ t.node? l = some .directory ∧
    Reached t skipped l names ∧ t.node? (l ++ (names ++ [name])) = some (.file content)

/-- The path of a file below a given directory. -/
def pathBelow (path : String) (names : List String) (name : String) : String :=
  (names ++ [name]).foldl Path.join path

/-- A document that a given path offers: the file it leads to, or a document below the directory. -/
inductive Offers (t : FileTree) (skipped : List String) (path : String) : String → Prop
  | file : t.isFile path = true → Offers t skipped path path
  | below {names : List String} {name : String} : DocumentIn t skipped path names name →
      Offers t skipped path (pathBelow path names name)

/-- A document that is listed for a given path: below a directory, the name of the file is not
skipped either. -/
inductive Lists (t : FileTree) (skipped : List String) (path : String) : String → Prop
  | file : t.isFile path = true → Lists t skipped path path
  | below {names : List String} {name : String} : DocumentIn t skipped path names name →
      name ∉ skipped → Lists t skipped path (pathBelow path names name)

theorem Lists.offers (h : Lists t skipped path p) : Offers t skipped path p := by
  cases h with
  | file hfile => exact .file hfile
  | below hdocument _ => exact .below hdocument

theorem isDocument_concat_iff {name : String} (hname : PlainName name) :
    IsDocument skipped path (names ++ [name]) ↔
      ((∀ s ∈ names, s ∉ skipped) ∧ name ∉ skipped) ∧ DocumentName name := by
  have hformat : (Format.ofPath? ((names ++ [name]).foldl Path.join path)).isSome = true ↔
      DocumentName name := by
    rw [List.foldl_concat]
    exact isSome_ofPath?_iff (Path.fileName?_join _ hname)
  unfold IsDocument
  rw [hformat, List.any_eq_false]
  simp [or_imp, forall_and]

/-- **Below a directory those documents are found whose own name is not skipped.** -/
theorem IsTree.mem_documentsBelow_iff (ht : t.IsTree) (hl : t.locate path = .ok l)
    (hnode : t.node? l = some .directory) : p ∈ t.documentsBelow skipped path l ↔
      ∃ names name, DocumentIn t skipped path names name ∧ name ∉ skipped ∧
        p = pathBelow path names name := by
  constructor
  · intro hp
    rw [documentsBelow_eq, List.mem_filterMap] at hp
    obtain ⟨⟨l', n⟩, he, hp⟩ := hp
    cases n with
    | directory => cases hp
    | file content =>
      obtain ⟨found, hdocument, rfl, rfl⟩ := document?_eq_some hp
      obtain rfl | ⟨names, name, rfl⟩ := List.eq_nil_or_concat' found
      · exact absurd rfl hdocument.1
      · have hfile := ht.node?_of_mem he
        have hplain := ht.plain _ he name (by simp)
        obtain ⟨⟨hnames, hname⟩, hnamed⟩ := (isDocument_concat_iff hplain).mp hdocument
        have hreached := (ht.reached_iff (ht.directory_of_concat hfile)).mpr hnames
        exact ⟨names, name, ⟨hnamed, l, content, hl, hnode, hreached, hfile⟩, hname, rfl⟩
  · rintro ⟨names, name, ⟨hnamed, l', content, hl', -, hreached, hfile⟩, hname, rfl⟩
    rw [hl] at hl'
    obtain rfl := Except.ok.inj hl'
    have hplain := ht.plainName hfile name (by simp)
    have hnames := (ht.reached_iff (ht.directory_of_concat hfile)).mp hreached
    exact mem_documentsBelow hfile
      ((isDocument_concat_iff hplain).mpr ⟨⟨hnames, hname⟩, hnamed⟩)

/-! ## Given paths -/

theorem documentsAt_of_isFile (h : t.isFile path = true) :
    t.documentsAt skipped path = .ok [path] := by
  obtain ⟨content, hfind⟩ := isFile_iff.mp h
  obtain ⟨l, hl, -⟩ := find_eq_ok_iff.mp hfind
  unfold documentsAt
  rw [hl, hfind]

theorem documentsAt_of_error {fault : FileFault} (h : t.find path = .error fault) :
    t.documentsAt skipped path = .error (.file path fault) := by
  unfold documentsAt
  rw [h]
  split <;> simp_all

theorem exists?_iff : t.exists? path = true ↔ ∃ n, t.find path = .ok n := by
  unfold exists?
  cases t.find path <;> simp [Except.toOption]

/-- A given path is a file, or a directory with a place. -/
theorem isFile_or_directory_of_exists? (h : t.exists? path = true) :
    t.isFile path = true ∨ ∃ l, t.locate path = .ok l ∧ t.node? l = some .directory := by
  obtain ⟨n, hfind⟩ := exists?_iff.mp h
  cases n with
  | file content => exact .inl (isFile_iff.mpr ⟨content, hfind⟩)
  | directory => exact .inr (find_eq_ok_iff.mp hfind)

theorem exists_documentsAt_of_exists? (h : t.exists? path = true) :
    ∃ found, t.documentsAt skipped path = .ok found := by
  rcases isFile_or_directory_of_exists? h with hfile | ⟨l, hl, hnode⟩
  · exact ⟨_, documentsAt_of_isFile hfile⟩
  · exact ⟨_, documentsAt_of_directory hl hnode⟩

theorem exists?_of_documentsAt {found : List String} (h : t.documentsAt skipped path = .ok found) :
    t.exists? path = true := by
  rw [exists?_iff]
  cases hfind : t.find path with
  | ok n => exact ⟨n, rfl⟩
  | error fault =>
    rw [documentsAt_of_error hfind] at h
    cases h

/-- No document is below a file. -/
theorem DocumentIn.isFile_eq_false {name : String} (h : DocumentIn t skipped path names name) :
    t.isFile path = false := by
  obtain ⟨-, l, content, hl, hnode, -⟩ := h
  rw [Bool.eq_false_iff, Ne, isFile_iff, find_eq_ok_iff.mpr ⟨l, hl, hnode⟩]
  simp

/-- **What is found for a given path is what is listed for it.** -/
theorem IsTree.mem_documentsAt_iff (ht : t.IsTree) {found : List String}
    (h : t.documentsAt skipped path = .ok found) : p ∈ found ↔ Lists t skipped path p := by
  rcases isFile_or_directory_of_exists? (exists?_of_documentsAt h) with hfile | ⟨l, hl, hnode⟩
  · rw [documentsAt_of_isFile hfile] at h
    obtain rfl := Except.ok.inj h
    rw [List.mem_singleton]
    constructor
    · rintro rfl
      exact .file hfile
    · rintro (_ | ⟨hdocument, -⟩)
      · rfl
      · rw [hdocument.isFile_eq_false] at hfile
        cases hfile
  · rw [documentsAt_of_directory hl hnode] at h
    obtain rfl := Except.ok.inj h
    rw [ht.mem_documentsBelow_iff hl hnode]
    constructor
    · rintro ⟨names, name, hdocument, hname, rfl⟩
      exact .below hdocument hname
    · rintro (hfile | ⟨hdocument, hname⟩)
      · obtain ⟨content, hfind⟩ := isFile_iff.mp hfile
        rw [find_eq_ok_iff.mpr ⟨l, hl, hnode⟩] at hfind
        cases hfind
      · exact ⟨_, _, hdocument, hname, rfl⟩

/-! ## What is listed -/

/-- A list has exactly the paths of a kind, up to their spelling, each once and in order. -/
structure Exactly (found : List String) (Kind : String → Prop) : Prop where
  ascending : found.Pairwise fun p q => Path.compare p q = .lt
  sound : ∀ p ∈ found, Kind p
  complete : ∀ p, Kind p → ∃ q ∈ found, Path.same q p = true

variable {paths paths' found found' : List String}

theorem discover_eq_ok_iff : t.discover skipped paths = .ok found ↔
    ∃ lists, paths.mapM (t.documentsAt skipped) = .ok lists ∧
      found = dropSame (Ordered.sort Path.compare lists.flatten) := by
  unfold discover
  cases paths.mapM (t.documentsAt skipped) with
  | error e => simp [Bind.bind, Except.bind]
  | ok lists => simp [Bind.bind, Except.bind, pure, Except.pure, eq_comm]

/-- **The paths that are listed for the given ones, each once and in order.** -/
theorem IsTree.exactly_discover (ht : t.IsTree) (h : t.discover skipped paths = .ok found) :
    Exactly found fun p => ∃ path ∈ paths, Lists t skipped path p := by
  obtain ⟨lists, hlists, rfl⟩ := discover_eq_ok_iff.mp h
  have hmem : ∀ p, p ∈ Ordered.sort Path.compare lists.flatten ↔
      ∃ path ∈ paths, Lists t skipped path p := by
    intro p
    rw [Ordered.mem_sort, List.mem_flatten]
    constructor
    · rintro ⟨found, hfound, hp⟩
      obtain ⟨path, hpath, hat⟩ := exists_of_mem_mapM hlists hfound
      exact ⟨path, hpath, (ht.mem_documentsAt_iff hat).mp hp⟩
    · rintro ⟨path, hpath, hp⟩
      obtain ⟨found, hfound, hat⟩ := exists_mem_of_mapM hlists hpath
      exact ⟨found, hfound, (ht.mem_documentsAt_iff hat).mpr hp⟩
  exact {
    ascending := pairwise_dropSame (Ordered.pairwise_sort _)
    sound := fun p hp => (hmem p).mp (mem_of_mem_dropSame hp)
    complete := fun p hp => exists_mem_dropSame ((hmem p).mpr hp) }

theorem exists_discover (skipped : List String) (h : ∀ path ∈ paths, t.exists? path = true) :
    ∃ found, t.discover skipped paths = .ok found := by
  obtain ⟨lists, hlists⟩ := exists_mapM fun path hpath => exists_documentsAt_of_exists? (h path hpath)
  exact ⟨_, discover_eq_ok_iff.mpr ⟨lists, hlists, rfl⟩⟩

/-- **A given path that leads to nothing is reported.** -/
theorem discover_missing (h : ∃ path ∈ paths, t.exists? path = false) :
    ∃ path ∈ paths, ∃ fault, t.find path = .error fault ∧
      t.discover skipped paths = .error (.file path fault) := by
  obtain ⟨missing, hmissing, hnone⟩ := h
  cases hlists : paths.mapM (t.documentsAt skipped) with
  | ok lists =>
    obtain ⟨found, -, hat⟩ := exists_mem_of_mapM hlists hmissing
    rw [exists?_of_documentsAt hat] at hnone
    cases hnone
  | error e =>
    obtain ⟨path, hpath, hat⟩ := exists_of_mapM_eq_error hlists
    cases hfind : t.find path with
    | ok n =>
      obtain ⟨found, hfound⟩ := exists_documentsAt_of_exists? (exists?_iff.mpr ⟨n, hfind⟩)
      rw [hfound] at hat
      cases hat
    | error fault =>
      rw [documentsAt_of_error hfind] at hat
      refine ⟨path, hpath, fault, hfind, ?_⟩
      unfold discover
      rw [hlists, hat]
      rfl

/-! ## The order and the spelling of the given paths -/

theorem DocumentIn.plainName (ht : t.IsTree) {name : String}
    (h : DocumentIn t skipped path names name) : ∀ s ∈ names ++ [name], PlainName s := by
  obtain ⟨-, l, content, -, -, -, hfile⟩ := h
  exact fun s hs => ht.plainName hfile s (List.mem_append_right l hs)

theorem DocumentIn.fileName?_pathBelow (ht : t.IsTree) {name : String}
    (h : DocumentIn t skipped path names name) :
    Path.fileName? (pathBelow path names name) = some name := by
  rw [pathBelow, List.foldl_concat]
  exact Path.fileName?_join _ (h.plainName ht name (by simp))

/-- **A path that is spelled in another way stands for the same documents.** -/
theorem IsTree.exists_lists_of_same (ht : t.IsTree) {path' : String}
    (hsame : Path.same path path' = true) (hpath : t.exists? path = true)
    (hpath' : t.exists? path' = true) (h : Lists t skipped path p) :
    ∃ p', Lists t skipped path' p' ∧ Path.same p p' = true := by
  obtain ⟨n, hn⟩ := exists?_iff.mp hpath
  obtain ⟨n', hn'⟩ := exists?_iff.mp hpath'
  obtain ⟨l, hl, -⟩ := find_eq_ok_iff.mp hn
  obtain ⟨l', hl', -⟩ := find_eq_ok_iff.mp hn'
  obtain rfl := eq_of_same hsame hl hl'
  cases h with
  | file hfile =>
    refine ⟨path', .file ?_, hsame⟩
    unfold isFile find at hfile ⊢
    rwa [hl', ← hl]
  | @below names name hdocument hname =>
    have hplain := hdocument.plainName ht
    obtain ⟨hnamed, l', content, hlocate, hrest⟩ := hdocument
    rw [hl] at hlocate
    obtain rfl := Except.ok.inj hlocate
    refine ⟨pathBelow path' names name, .below ⟨hnamed, l, content, hl', hrest⟩ hname, ?_⟩
    rw [Path.same_iff, pathBelow, pathBelow,
      components_foldl_join (locate_eq_ok_iff.mp hl).1.2.2 hplain,
      components_foldl_join (locate_eq_ok_iff.mp hl').1.2.2 hplain, Path.same_iff.mp hsame]

theorem exists?_of_discover (h : t.discover skipped paths = .ok found) :
    ∀ path ∈ paths, t.exists? path = true := by
  obtain ⟨lists, hlists, -⟩ := discover_eq_ok_iff.mp h
  intro path hpath
  obtain ⟨at', -, hat⟩ := exists_mem_of_mapM hlists hpath
  exact exists?_of_documentsAt hat

/-- What is listed is listed for the same paths in another spelling. -/
theorem IsTree.exists_mem_discover (ht : t.IsTree) (hfound : t.discover skipped paths = .ok found)
    (hfound' : t.discover skipped paths' = .ok found')
    (h : ∀ path ∈ paths, ∃ path' ∈ paths', Path.same path path' = true) :
    ∀ p ∈ found, ∃ q ∈ found', Path.same p q = true := by
  intro p hp
  obtain ⟨path, hpath, hlisted⟩ := (ht.exactly_discover hfound).sound p hp
  obtain ⟨path', hpath', hsame⟩ := h path hpath
  obtain ⟨p', hlisted', hpp'⟩ := ht.exists_lists_of_same hsame
    (exists?_of_discover hfound path hpath) (exists?_of_discover hfound' path' hpath') hlisted
  obtain ⟨q, hq, hqp'⟩ := (ht.exactly_discover hfound').complete p' ⟨path', hpath', hlisted'⟩
  exact ⟨q, hq, Path.same_trans hpp' (Path.same_symm hqp')⟩

/-- **The same paths stand for the same documents, listed alike.** -/
theorem IsTree.map_components_discover (ht : t.IsTree) (h : SamePaths paths paths')
    (hfound : t.discover skipped paths = .ok found)
    (hfound' : t.discover skipped paths' = .ok found') :
    found'.map Path.components = found.map Path.components := by
  have hback : ∀ path' ∈ paths', ∃ path ∈ paths, Path.same path' path = true := by
    intro path' hpath'
    obtain ⟨path, hpath, hsame⟩ := h.2 path' hpath'
    exact ⟨path, hpath, Path.same_symm hsame⟩
  refine map_components_eq (ht.exactly_discover hfound').ascending
    (ht.exactly_discover hfound).ascending ⟨ht.exists_mem_discover hfound' hfound hback, ?_⟩
  intro q hq
  obtain ⟨p, hp, hsame⟩ := ht.exists_mem_discover hfound hfound' h.1 q hq
  exact ⟨p, hp, Path.same_symm hsame⟩

/-! ## What is not listed -/

/-- **All that is offered is listed exactly if every document whose own name is skipped is given
itself.** -/
theorem IsTree.exactly_offers_iff (ht : t.IsTree) (h : t.discover skipped paths = .ok found) :
    Exactly found (fun p => ∃ path ∈ paths, Offers t skipped path p) ↔
      ∀ path ∈ paths, ∀ names name, DocumentIn t skipped path names name → name ∈ skipped →
        ∃ given ∈ paths, t.isFile given = true ∧
          Path.same given (pathBelow path names name) = true := by
  have hlisted := ht.exactly_discover h
  constructor
  · intro hoffers path hpath names name hdocument hskipped
    obtain ⟨q, hq, hsame⟩ := hoffers.complete _ ⟨path, hpath, .below hdocument⟩
    obtain ⟨given, hgiven, hq⟩ := hlisted.sound q hq
    cases hq with
    | file hfile => exact ⟨q, hgiven, hfile, hsame⟩
    | @below names' name' hdocument' hname' =>
      -- what is listed below a directory has a name that is not skipped
      have hname := (hdocument'.fileName?_pathBelow ht).symm.trans
        ((Path.fileName?_congr hsame).trans (hdocument.fileName?_pathBelow ht))
      rw [Option.some.inj hname] at hname'
      exact absurd hskipped hname'
  · intro hgiven
    refine ⟨hlisted.ascending, ?_, ?_⟩
    · intro p hp
      obtain ⟨path, hpath, hp⟩ := hlisted.sound p hp
      exact ⟨path, hpath, hp.offers⟩
    · rintro p ⟨path, hpath, hp⟩
      cases hp with
      | file hfile => exact hlisted.complete p ⟨p, hpath, .file hfile⟩
      | @below names name hdocument =>
        by_cases hskipped : name ∈ skipped
        · obtain ⟨given, hmem, hfile, hsame⟩ := hgiven path hpath names name hdocument hskipped
          obtain ⟨q, hq, hqsame⟩ := hlisted.complete given ⟨given, hmem, .file hfile⟩
          exact ⟨q, hq, Path.same_trans hqsame hsame⟩
        · exact hlisted.complete _ ⟨path, hpath, .below hdocument hskipped⟩

/-- **Discovery lists exactly the documents whose own name is not skipped**, each once and in order, if
all given paths lead somewhere: the files that are given, and the files with the name of a document
that are reached below a given directory. These are all the documents exactly if every document with a
name that is skipped is given itself. They are listed alike for the same paths in any order and
spelling. A path that leads to nothing is reported. -/
theorem discover_exact (ht : t.IsTree) (skipped paths : List String) :
    ((∀ path ∈ paths, t.exists? path = true) →
      ∃ found, t.discover skipped paths = .ok found ∧
        Exactly found (fun p => ∃ path ∈ paths, Lists t skipped path p) ∧
        (Exactly found (fun p => ∃ path ∈ paths, Offers t skipped path p) ↔
          ∀ path ∈ paths, ∀ names name, DocumentIn t skipped path names name → name ∈ skipped →
            ∃ given ∈ paths, t.isFile given = true ∧
              Path.same given (pathBelow path names name) = true) ∧
        ∀ paths', SamePaths paths paths' → (∀ path ∈ paths', t.exists? path = true) →
          ∃ found', t.discover skipped paths' = .ok found' ∧
            found'.map Path.components = found.map Path.components) ∧
      ((∃ path ∈ paths, t.exists? path = false) →
        ∃ path ∈ paths, ∃ fault, t.find path = .error fault ∧
          t.discover skipped paths = .error (.file path fault)) := by
  refine ⟨fun hpaths => ?_, discover_missing⟩
  obtain ⟨found, hfound⟩ := exists_discover skipped hpaths
  refine ⟨found, hfound, ht.exactly_discover hfound, ht.exactly_offers_iff hfound, ?_⟩
  intro paths' hsame hpaths'
  obtain ⟨found', hfound'⟩ := exists_discover skipped hpaths'
  exact ⟨found', hfound', ht.map_components_discover hsame hfound hfound'⟩

/-- A registry with a document, and with one in a directory for old ones. -/
private def yard : FileTree :=
  ⟨[(["registry"], .directory),
    (["registry", "host.yaml"], .file "version: 1.0.0".toUTF8),
    (["registry", "old"], .directory),
    (["registry", "old", "host.json"], .file "".toUTF8)], []⟩

private theorem isTree_yard : yard.IsTree where
  plain := by
    unfold Plain
    decide
  distinct := by decide
  parents := by
    intro e he
    simp only [yard, List.mem_cons, List.not_mem_nil, or_false] at he
    rcases he with rfl | rfl | rfl | rfl
    all_goals exact ⟨by simp, rfl⟩

private theorem locate_yard :
    ∀ path ∈ ["registry", "registry/"], yard.locate path = .ok ["registry"] := by
  simp only [locate_eq_ok_iff]
  decide +kernel

private theorem exists?_yard : ∀ path ∈ ["registry", "registry/"], yard.exists? path = true :=
  fun path hpath => exists?_iff.mpr ⟨.directory, find_eq_ok_iff.mpr ⟨_, locate_yard path hpath, rfl⟩⟩

/-- Two spellings of one directory stand for its documents, and a path that leads nowhere is reported. -/
theorem discover_exact_yard : yard.IsTree ∧
    (∃ found, yard.discover ["old"] ["registry", "registry/"] = .ok found ∧
      Exactly found fun p => ∃ path ∈ ["registry", "registry/"], Offers yard ["old"] path p) ∧
    ∃ fault, yard.discover ["old"] ["registry", "nowhere"] = .error (.file "nowhere" fault) := by
  have hold : ¬ DocumentName "old" := by
    have hname : Path.fileName? "old" = some "old" := by decide
    rw [← isSome_ofPath?_iff hname]
    decide
  have hnowhere : yard.exists? "nowhere" = false := by
    unfold exists?
    rw [toOption_find_eq_none (by decide +kernel)]
    rfl
  refine ⟨isTree_yard, ?_, ?_⟩
  · obtain ⟨found, hfound, -, hoffers, -⟩ :=
      (discover_exact isTree_yard ["old"] ["registry", "registry/"]).1 exists?_yard
    refine ⟨found, hfound, hoffers.mpr ?_⟩
    intro path _ names name hdocument hskipped
    rw [List.mem_singleton.mp hskipped] at hdocument
    exact absurd hdocument.1 hold
  · obtain ⟨path, hpath, fault, hfind, hdiscover⟩ :=
      (discover_exact isTree_yard ["old"] ["registry", "nowhere"]).2 ⟨"nowhere", by simp, hnowhere⟩
    rcases List.mem_pair.mp hpath with rfl | rfl
    · have hregistry := exists?_yard "registry" (by simp)
      unfold exists? at hregistry
      rw [hfind] at hregistry
      cases hregistry
    · exact ⟨fault, hdiscover⟩

/-- **A document is not listed if its own name is among those of the directories to skip**, though its
directory is given and no directory is skipped. -/
theorem not_exactly_offers_named : yard.IsTree ∧ yard.exists? "registry" = true ∧
    DocumentIn yard ["host.yaml"] "registry" [] "host.yaml" ∧
    yard.discover ["host.yaml"] ["registry"] = .ok ["registry/old/host.json"] ∧
    ¬ ∃ found, yard.discover ["host.yaml"] ["registry"] = .ok found ∧
      Exactly found fun p => ∃ path ∈ ["registry"], Offers yard ["host.yaml"] path p := by
  have hlocate := locate_yard "registry" (by simp)
  have hdocument : DocumentIn yard ["host.yaml"] "registry" [] "host.yaml" := by
    refine ⟨?_, ["registry"], _, hlocate, rfl, .here, rfl⟩
    exact ⟨"host", "yaml", by decide, by decide, by decide⟩
  have hdiscover : yard.discover ["host.yaml"] ["registry"] = .ok ["registry/old/host.json"] := by
    have hbelow : yard.documentsBelow ["host.yaml"] "registry" ["registry"] =
        ["registry/old/host.json"] := by decide +kernel
    refine discover_eq_ok_iff.mpr ⟨[["registry/old/host.json"]], ?_, ?_⟩
    · rw [List.mapM_cons, documentsAt_of_directory hlocate rfl, hbelow]
      rfl
    · simp [Ordered.sort, dropSame]
  refine ⟨isTree_yard, exists?_yard "registry" (by simp), hdocument, hdiscover, ?_⟩
  rintro ⟨found, hfound, hoffers⟩
  obtain ⟨given, hgiven, hfile, -⟩ := (isTree_yard.exactly_offers_iff hfound).mp hoffers
    "registry" (by simp) [] "host.yaml" hdocument (by simp)
  rw [List.mem_singleton.mp hgiven, hdocument.isFile_eq_false] at hfile
  cases hfile

end FileTree

end AttributeRegistry
