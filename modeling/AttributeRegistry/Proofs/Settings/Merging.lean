import AttributeRegistry.Proofs.Settings.Fields
import AttributeRegistry.Proofs.Text.Lines

/-!
# Putting one layer over another

What a layer says about a setting takes the place of what was there, and all other settings stay as
they were (`Takes`). A value that is put under the name of a setting does that for this setting; a
table that is put under the name of a section does it for the settings in it, because it is merged
into the table that is there, entry by entry. So whole files and single variables do it too
(`takes_putAll`, `takes_putAt`).
-/

namespace AttributeRegistry

open Settings

namespace Setting

/-! ## Looking up -/

/-- The part of a value that some names lead to. -/
def at? : List String → Setting → Option Setting
  | [], t => some t
  | name :: path, t => (t.get? name).bind (at? path)

/-- A table in which no name occurs twice. -/
def IsTable (t : Setting) : Prop :=
  ∃ origin es, t = table origin es ∧ (es.map Prod.fst).Nodup

theorem isTable_empty : empty.IsTable :=
  ⟨none, [], rfl, List.nodup_nil⟩

variable {t v : Setting} {name other : String} {path : List String}

theorem lookup_store (es : List (String × Setting)) :
    (store name v es).lookup other = if other = name then some v else es.lookup other := by
  induction es with
  | nil => by_cases h : other = name <;> simp [store, h]
  | cons e es ih =>
    obtain ⟨n, w⟩ := e
    rw [store]
    by_cases hn : n = name
    · subst hn
      rw [if_pos rfl, List.lookup_cons, List.lookup_cons]
      by_cases h : other = n
      · simp [h]
      · simp [h, beq_eq_false_iff_ne.mpr h]
    · rw [if_neg hn, List.lookup_cons, List.lookup_cons, ih]
      by_cases h : other = n
      · simp [h, hn]
      · simp [beq_eq_false_iff_ne.mpr h]

theorem get?_set : (t.set name v).get? other = if other = name then some v else t.get? other := by
  cases t with
  | table origin es => exact lookup_store es
  | _ => exact lookup_store []

theorem map_fst_store (es : List (String × Setting)) : (store name v es).map Prod.fst =
    if name ∈ es.map Prod.fst then es.map Prod.fst else es.map Prod.fst ++ [name] := by
  induction es with
  | nil => rfl
  | cons e es ih =>
    obtain ⟨n, w⟩ := e
    rw [store]
    by_cases hn : n = name
    · simp [hn]
    · rw [if_neg hn, List.map_cons, ih]
      by_cases hmem : name ∈ es.map Prod.fst
      · simp [hmem]
      · simp [hmem, Ne.symm hn]

/-- Exchanging a value keeps a table one. -/
theorem IsTable.set (h : t.IsTable) (name : String) (v : Setting) : (t.set name v).IsTable := by
  obtain ⟨origin, es, rfl, hnodup⟩ := h
  refine ⟨origin, store name v es, rfl, ?_⟩
  rw [map_fst_store]
  split
  · exact hnodup
  · next hname =>
    rw [List.nodup_append]
    refine ⟨hnodup, List.pairwise_singleton _ _, ?_⟩
    rintro a ha b hb rfl
    exact hname (List.mem_singleton.mp hb ▸ ha)

theorem at?_cons_set_self : (t.set name v).at? (name :: path) = v.at? path := by
  rw [at?, get?_set, if_pos rfl, Option.bind_some]

theorem at?_cons_set_of_ne (h : other ≠ name) :
    (t.set name v).at? (other :: path) = t.at? (other :: path) := by
  rw [at?, at?, get?_set, if_neg h]

/-- Whatever is not there yet stands for an empty table. -/
theorem at?_getD_empty (hpath : path ≠ []) :
    ((t.get? name).getD empty).at? path = t.at? (name :: path) := by
  rw [at?]
  cases t.get? name with
  | some u => rfl
  | none =>
    obtain ⟨first, rest, rfl⟩ := List.exists_cons_of_ne_nil hpath
    rfl

/-! ## Layers -/

/-- The sections below a path are tables. -/
def Sectioned (path : List String) (t : Setting) : Prop :=
  ∀ more, path ++ more ∈ Field.sections → ∀ u, t.at? more = some u → u.IsTable

/-- A part is taken over for some settings below a path, all others stay as they were. -/
structure Takes (q : Part) (those : Field → Prop) (path : List String) (t t' : Setting) : Prop where
  taken : ∀ f more, f.path = path ++ more → those f →
    ∃ a v, q f = some a ∧ t'.at? more = some v ∧ f.shape.readSetting v = .ok a
  kept : ∀ f more, f.path = path ++ more → ¬ those f → t'.at? more = t.at? more
  sectioned : t.Sectioned path → t'.Sectioned path

variable {q : Part} {some₁ some₂ : Field → Prop} {t' t'' sub : Setting}

theorem Takes.refl : Takes q (fun _ => False) path t t where
  taken := fun _ _ _ h => h.elim
  kept := fun _ _ _ _ => rfl
  sectioned := id

theorem Takes.trans (h : Takes q some₁ path t t') (h' : Takes q some₂ path t' t'') :
    Takes q (fun f => some₁ f ∨ some₂ f) path t t'' where
  taken := by
    intro f more hpath hsome
    by_cases hsome₂ : some₂ f
    · exact h'.taken f more hpath hsome₂
    · obtain ⟨a, v, ha, hv, hread⟩ := h.taken f more hpath (hsome.resolve_right hsome₂)
      exact ⟨a, v, ha, (h'.kept f more hpath hsome₂).trans hv, hread⟩
  kept := by
    intro f more hpath hnone
    rw [not_or] at hnone
    rw [h'.kept f more hpath hnone.2, h.kept f more hpath hnone.1]
  sectioned := fun hs => h'.sectioned (h.sectioned hs)

theorem Takes.congr (h : Takes q some₁ path t t') (hiff : ∀ f, some₁ f ↔ some₂ f) :
    Takes q some₂ path t t' := by
  have heq : some₁ = some₂ := funext fun f => propext (hiff f)
  rwa [heq] at h

/-- A value for a setting is taken over when it is put under the setting's name. -/
theorem takes_set {f : Field} {a : f.Value} (hpath : f.path = path ++ [name]) (ha : q f = some a)
    (hread : f.shape.readSetting v = .ok a) : Takes q (· = f) path t (t.set name v) where
  taken := by
    rintro g more hg rfl
    obtain rfl : more = [name] := List.append_cancel_left (hg.symm.trans hpath)
    refine ⟨a, v, ha, ?_, hread⟩
    rw [at?_cons_set_self]
    rfl
  kept := by
    intro g more hg hne
    cases more with
    | nil =>
      -- the path leads to a section, so no setting stands there
      have hsection : path ∈ Field.sections := Field.mem_sections_of_path_eq hpath (by simp)
      rw [List.append_nil] at hg
      exact absurd (hg ▸ hsection) Field.path_not_mem_sections
    | cons first rest =>
      refine at?_cons_set_of_ne ?_
      rintro rfl
      refine hne (Field.eq_of_prefix_path ⟨rest, ?_⟩).symm
      rw [hpath, hg]
      simp
  sectioned := by
    intro hs more hmore u hu
    cases more with
    | nil =>
      obtain rfl := Option.some.inj hu
      exact (hs [] hmore t rfl).set name v
    | cons first rest =>
      have hne : first ≠ name := by
        rintro rfl
        have hbelow : path ++ first :: rest = f.path ++ rest := by simp [hpath]
        exact Field.path_append_not_mem_sections (hbelow ▸ hmore)
      rw [at?_cons_set_of_ne hne] at hu
      exact hs _ hmore u hu

/-- What is taken over in a section is taken over in the whole. -/
theorem Takes.under (hsection : path ++ [name] ∈ Field.sections)
    (h : Takes q some₁ (path ++ [name]) ((t.get? name).getD empty) sub) :
    Takes q (fun f => path ++ [name] <+: f.path ∧ some₁ f) path t (t.set name sub) where
  taken := by
    rintro f more hf ⟨⟨rest, hrest⟩, hsome⟩
    rw [hf, List.append_assoc, List.append_cancel_left_eq, List.singleton_append] at hrest
    subst hrest
    obtain ⟨a, v, ha, hv, hread⟩ := h.taken f rest (by simp [hf]) hsome
    exact ⟨a, v, ha, by rwa [at?_cons_set_self], hread⟩
  kept := by
    intro f more hf hnone
    cases more with
    | nil =>
      rw [List.append_nil] at hf
      exact absurd (hf ▸ Field.mem_sections_of_append hsection) Field.path_not_mem_sections
    | cons first rest =>
      by_cases hfirst : first = name
      · subst hfirst
        have hpath : f.path = path ++ [first] ++ rest := by simp [hf]
        have hrest : rest ≠ [] := by
          rintro rfl
          rw [List.append_nil] at hpath
          exact Field.path_not_mem_sections (hpath ▸ hsection)
        rw [at?_cons_set_self, h.kept f rest hpath fun hsome => hnone ⟨⟨rest, hpath.symm⟩, hsome⟩,
          at?_getD_empty hrest]
      · exact at?_cons_set_of_ne hfirst
  sectioned := by
    intro hs more hmore u hu
    cases more with
    | nil =>
      obtain rfl := Option.some.inj hu
      exact (hs [] hmore t rfl).set name sub
    | cons first rest =>
      by_cases hfirst : first = name
      · subst hfirst
        rw [at?_cons_set_self] at hu
        refine h.sectioned (fun more' hmore' u' hu' => ?_) rest (by simpa using hmore) u hu
        cases more' with
        | nil =>
          obtain rfl := Option.some.inj hu'
          cases hget : t.get? first with
          | none => exact isTable_empty
          | some w =>
            refine hs [first] (by simpa using hmore') w ?_
            rw [at?, hget]
            rfl
        | cons _ _ =>
          rw [at?_getD_empty (List.cons_ne_nil _ _)] at hu'
          exact hs _ (by simpa using hmore') u' hu'
      · rw [at?_cons_set_of_ne hfirst] at hu
        exact hs _ hmore u hu

end Setting

/-! ## Files -/

namespace Datum

mutual

/-- The nodes of a datum, each with its path behind another one. -/
def nodes (path : List String) : Datum → List (List String × Datum)
  | .dict entries => (path, .dict entries) :: nodesIn path entries
  | d => [(path, d)]

/-- The nodes of the values of some entries. -/
def nodesIn (path : List String) : List (Datum × Datum) → List (List String × Datum)
  | [] => []
  | (k, d) :: es => nodes (path ++ [k.text?.getD ""]) d ++ nodesIn path es

end

end Datum

/-- A node of a file agrees with a part: it is a section, or what the part says about a setting. -/
def Settings.Part.Admits (q : Part) (path : List String) : Datum → Prop
  | .dict _ => path ∈ Field.sections
  | d => ∃ f, ∃ a : f.Value, f.path = path ∧ q f = some a ∧ d = f.toDatum a

theorem Settings.Part.Admits.cases {q : Part} {path : List String} {d : Datum}
    (h : q.Admits path d) : (∃ es, d = .dict es ∧ path ∈ Field.sections) ∨
      ∃ f, ∃ a : f.Value, f.path = path ∧ q f = some a ∧ d = f.toDatum a := by
  cases d with
  | dict es => exact .inl ⟨es, rfl, h⟩
  | _ => exact .inr h

/-- A file says what a part says: each of its nodes agrees with it, and nothing is missing. -/
structure Datum.Gives (d : Datum) (q : Part) : Prop where
  admits : ∀ node ∈ d.nodes [], q.Admits node.1 node.2
  mentions : ∀ f, q f ≠ none → f.path ∈ (d.nodes []).map Prod.fst

namespace Setting

variable {q : Part} {t v : Setting} {origin name : String} {path : List String}

theorem readSetting_list {α : Type} {s : Shape α} {o : Option String} {items : List Setting}
    {as : List α} (h : List.Forall₂ (fun v a => s.readSetting v = .ok a) items as) :
    (Shape.list s).readSetting (list o items) = .ok as := by
  have hfrom : ∀ n, (items.zipIdx n).mapM (fun e =>
      (s.readSetting e.1).mapError (Refusal.at e.2)) = .ok as := by
    induction h with
    | nil => exact fun _ => rfl
    | cons h _ ih =>
      intro n
      rw [List.zipIdx_cons, List.mapM_cons, ih (n + 1)]
      dsimp only
      rw [h]
      rfl
  rw [Shape.readSetting]
  exact hfrom 0

theorem readSetting_texts {α : Type} {s : Shape α} {o : Option String} {as : List α}
    {write : α → String} (h : ∀ a, s.readSetting (text origin (write a)) = .ok a) :
    (Shape.list s).readSetting (list o (as.map fun a => text origin (write a))) = .ok as := by
  refine readSetting_list ?_
  induction as with
  | nil => exact .nil
  | cons a as ih => exact .cons (h a) ih

theorem ofData_texts {α : Type} (as : List α) (write : α → String) :
    ofData origin (as.map fun a => .text (write a)) = as.map fun a => text origin (write a) := by
  induction as with
  | nil => rfl
  | cons a as ih => rw [List.map_cons, ofData, ih, ofDatum, List.map_cons]

/-- What a file says a setting is reads as this setting. -/
theorem readSetting_ofDatum (origin : String) (f : Field) (a : f.Value) :
    f.shape.readSetting (ofDatum origin (f.toDatum a)) = .ok a := by
  have hlist : ∀ {α : Type} {s : Shape α} {as : List α} {write : α → String},
      (∀ a, s.readSetting (text origin (write a)) = .ok a) → (Shape.list s).readSetting
        (ofDatum origin (.list (as.map fun a => .text (write a)))) = .ok as := by
    intro α s as write h
    rw [ofDatum, ofData_texts]
    exact readSetting_texts h
  cases f with
  | sources => exact hlist fun _ => rfl
  | skipped => exact hlist fun _ => rfl
  | targets => exact hlist fun t => by cases t <;> rfl
  | _ => rfl

theorem ofDatum_toDatum_ne (origin : String) (f : Field) (a : f.Value) (o es) :
    ofDatum origin (f.toDatum a) ≠ table o es := by
  cases f <;> exact Setting.noConfusion

theorem put_of_ne (h : ∀ o es, v ≠ table o es) : t.put name v = t.set (fold name) v := by
  cases v with
  | table o es => exact absurd rfl (h o es)
  | _ => rfl

mutual

/-- The nodes of a datum are below its path. -/
theorem isPrefix_of_mem_nodes (path : List String) :
    ∀ d : Datum, ∀ node ∈ d.nodes path, path <+: node.1
  | .dict es, node, hnode => by
    rw [Datum.nodes, List.mem_cons] at hnode
    rcases hnode with rfl | hnode
    · exact List.prefix_rfl
    · exact isPrefix_of_mem_nodesIn path es node hnode
  | .null, _, h | .bool _, _, h | .int _, _, h | .float _, _, h | .text _, _, h | .list _, _, h => by
    rw [List.mem_singleton.mp h]

/-- The nodes of the values of some entries are below the path of the entries. -/
theorem isPrefix_of_mem_nodesIn (path : List String) :
    ∀ es : List (Datum × Datum), ∀ node ∈ Datum.nodesIn path es, path <+: node.1
  | [], node, hnode => absurd hnode List.not_mem_nil
  | (k, d) :: es, node, hnode => by
    rw [Datum.nodesIn, List.mem_append] at hnode
    rcases hnode with hnode | hnode
    · exact (List.prefix_append _ _).trans (isPrefix_of_mem_nodes _ d node hnode)
    · exact isPrefix_of_mem_nodesIn path es node hnode

end

/-- What a file says about a setting is taken over when it is put under the setting's name. -/
theorem takes_put_leaf {d : Datum} (hd : ∀ es, d ≠ .dict es) (h : q.Admits (path ++ [name]) d) :
    Takes q (fun f => f.path ∈ (d.nodes (path ++ [name])).map Prod.fst) path t
      (t.put name (ofDatum origin d)) := by
  have hnodes : d.nodes (path ++ [name]) = [(path ++ [name], d)] := by
    cases d with
    | dict es => exact absurd rfl (hd es)
    | _ => rfl
  obtain ⟨es, rfl, -⟩ | ⟨f, a, hpath, ha, rfl⟩ := h.cases
  · exact absurd rfl (hd es)
  have hfold : fold name = name := Field.fold_of_mem_path (f := f) (by simp [hpath])
  rw [put_of_ne (ofDatum_toDatum_ne origin f a), hfold, hnodes]
  refine (takes_set hpath ha (readSetting_ofDatum origin f a)).congr fun g => ?_
  rw [List.map_singleton, List.mem_singleton, ← hpath]
  constructor
  · rintro rfl
    rfl
  · exact Field.eq_of_path_eq

mutual

/-- **What a file says below a path is taken over** when it is put under the last name of the path. -/
theorem takes_put {name : String} : ∀ (path : List String) (t : Setting) (d : Datum),
    (∀ node ∈ d.nodes (path ++ [name]), q.Admits node.1 node.2) →
      Takes q (fun f => f.path ∈ (d.nodes (path ++ [name])).map Prod.fst) path t
        (t.put name (ofDatum origin d))
  | path, t, .dict es, h => by
    rw [Datum.nodes, List.forall_mem_cons] at h
    have hsection : path ++ [name] ∈ Field.sections := h.1
    have hfold : fold name = name := Field.fold_of_mem_section hsection (by simp)
    rw [ofDatum, put, hfold]
    refine ((takes_putAll _ _ es h.2).under hsection).congr fun f => ?_
    rw [Datum.nodes, List.map_cons, List.mem_cons]
    constructor
    · exact fun hf => .inr hf.2
    · rintro (hf | hf)
      · have hf : f.path = path ++ [name] := hf
        exact absurd (hf ▸ hsection) Field.path_not_mem_sections
      · obtain ⟨node, hnode, hpath⟩ := List.mem_map.mp hf
        exact ⟨hpath ▸ isPrefix_of_mem_nodesIn _ es node hnode, hf⟩
  | path, t, .null, h | path, t, .bool _, h | path, t, .int _, h | path, t, .float _, h
  | path, t, .text _, h | path, t, .list _, h =>
    takes_put_leaf nofun (h _ List.mem_cons_self)

/-- What the entries of a table say is taken over when they are put into a table. -/
theorem takes_putAll : ∀ (path : List String) (t : Setting) (es : List (Datum × Datum)),
    (∀ node ∈ Datum.nodesIn path es, q.Admits node.1 node.2) →
      Takes q (fun f => f.path ∈ (Datum.nodesIn path es).map Prod.fst) path t
        (t.putAll (ofEntries origin es))
  | path, t, [], h => by
    rw [ofEntries, putAll]
    exact Takes.refl.congr fun f => by simp [Datum.nodesIn]
  | path, t, (k, d) :: es, h => by
    rw [Datum.nodesIn, List.forall_mem_append] at h
    rw [ofEntries, putAll]
    refine ((takes_put path t d h.1).trans (takes_putAll path _ es h.2)).congr fun f => ?_
    rw [Datum.nodesIn, List.map_append, List.mem_append]

end

theorem putLayer_append (t : Setting) (es fs : List (String × Setting)) :
    t.putLayer (es ++ fs) = (t.putLayer es).putLayer fs :=
  List.foldl_append

/-- An entry is put where the steps of its name lead. -/
theorem putLayer_cons {name : String} {steps : List Step} {last : Step}
    (h : steps? name = some (steps, last)) (t v : Setting) (es : List (String × Setting)) :
    t.putLayer ((name, v) :: es) = (t.putAt steps last v).putLayer es := by
  unfold putLayer
  rw [List.foldl_cons]
  dsimp only
  rw [h]

/-- A name that is no path leads to itself. -/
theorem putLayer_eq_putAll {es : List (String × Setting)}
    (h : ∀ e ∈ es, steps? e.1 = some ([], .name e.1)) (t : Setting) :
    t.putLayer es = t.putAll es := by
  induction es generalizing t with
  | nil => rfl
  | cons e es ih =>
    obtain ⟨name, v⟩ := e
    obtain ⟨he, hes⟩ := List.forall_mem_cons.mp h
    rw [putAll, ← ih hes, putLayer_cons he]
    rfl

/-! ## Paths -/

/-- A name that may stand in a path. -/
def IsName (name : String) : Prop :=
  name ≠ "" ∧ ∀ c ∈ name.toList, isNameChar c = true

theorem isName_iff {name : String} :
    IsName name ↔ name ≠ "" ∧ name.toList.all isNameChar = true :=
  and_congr_right fun _ => List.all_eq_true.symm

theorem moreSteps?_of_names {names : List String} (h : ∀ name ∈ names, IsName name) :
    moreSteps? (names.flatMap fun name => '.' :: name.toList) = some (names.map Step.name) := by
  have hdot : isNameChar '.' = false := by decide
  induction names with
  | nil => rw [List.flatMap_nil, moreSteps?, List.map_nil]
  | cons name names ih =>
    obtain ⟨⟨hne, hname⟩, hnames⟩ := List.forall_mem_cons.mp h
    have hrest : ∀ c ∈ (names.flatMap fun name => '.' :: name.toList).head?, isNameChar c = false := by
      cases names with
      | nil => simp
      | cons _ _ => simp [hdot]
    obtain ⟨htake, hdrop⟩ := Text.takeWhile_dropWhile_append hname hrest
    have hempty : name.toList.isEmpty = false := by
      simpa using hne
    rw [List.flatMap_cons, List.cons_append, moreSteps?]
    simp only [htake, hdrop, hempty, ih hnames, String.ofList_toList, List.map_cons]
    rfl

/-- Names with periods between them are a path. -/
theorem steps?_of_names {first last : String} {rest front : List String} {path : String}
    (hnames : ∀ name ∈ first :: rest, IsName name) (heq : first :: rest = front ++ [last])
    (hpath : path.toList = first.toList ++ rest.flatMap fun name => '.' :: name.toList) :
    steps? path = some (front.map Step.name, .name last) := by
  obtain ⟨⟨hne, hfirst⟩, hrest⟩ := List.forall_mem_cons.mp hnames
  have hhead : ∀ c ∈ (rest.flatMap fun name => '.' :: name.toList).head?, isNameChar c = false := by
    cases rest with
    | nil => simp
    | cons _ _ => simp [isNameChar]
  obtain ⟨htake, hdrop⟩ := Text.takeWhile_dropWhile_append hfirst hhead
  have hempty : first.toList.isEmpty = false := by
    simpa using hne
  have hsteps : Step.name first :: rest.map Step.name = front.map Step.name ++ [.name last] := by
    rw [← List.map_cons, heq, List.map_append, List.map_singleton]
  unfold steps?
  simp only [hpath, htake, hdrop, hempty, moreSteps?_of_names hrest, String.ofList_toList]
  simp [hsteps]

/-- A value under a path of names is taken over. -/
theorem takes_putAt {f : Field} {a : f.Value} (ha : q f = some a)
    (hread : f.shape.readSetting v = .ok a) (hv : ∀ o es, v ≠ table o es) {names : List String}
    {last : String} (hpath : f.path = path ++ (names ++ [last])) :
    Takes q (· = f) path t (t.putAt (names.map Step.name) (.name last) v) := by
  have hput : ∀ (t : Setting), t.put last v = t.set (fold last) v := fun t => put_of_ne hv
  have hfold : fold last = last := Field.fold_of_mem_path (f := f) (by simp [hpath])
  unfold putAt
  dsimp only
  simp only [hput, hfold]
  induction names generalizing path t with
  | nil => exact takes_set hpath ha hread
  | cons name names ih =>
    have hsection : path ++ [name] ∈ Field.sections :=
      Field.mem_sections_of_path_eq (show f.path = path ++ [name] ++ (names ++ [last]) by
        simp [hpath]) (by simp)
    have hname : fold name = name := Field.fold_of_mem_path (f := f) (by simp [hpath])
    -- where nothing is there yet, the first name makes a table
    have hempty : ∀ steps : List Step, change (fun part => part.set last v) steps absent =
        change (fun part => part.set last v) steps empty := by
      intro steps
      cases steps with
      | nil => rfl
      | cons step steps => cases step <;> rfl
    have hgetD : ∀ steps, change (fun part => part.set last v) steps ((t.get? name).getD absent) =
        change (fun part => part.set last v) steps ((t.get? name).getD empty) := by
      intro steps
      cases t.get? name with
      | none => exact hempty steps
      | some u => rfl
    rw [List.map_cons, change, hname, hgetD]
    have hpath' : f.path = (path ++ [name]) ++ (names ++ [last]) := by simp [hpath]
    refine ((ih hpath').under hsection).congr fun g => ?_
    constructor
    · exact And.right
    · rintro rfl
      exact ⟨⟨names ++ [last], by simp [hpath]⟩, rfl⟩

end Setting

end AttributeRegistry
