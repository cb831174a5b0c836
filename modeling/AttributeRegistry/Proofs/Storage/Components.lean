import AttributeRegistry.Proofs.Storage.Paths

/-!
# Components of paths

The components of a path have a form of their own: the root and the period that stands for the
directory a path is in come first or not at all, and a name has no slash (`Proper`). Components of this
form are those of the path that is written from them (`components_ofComponents`), so every beginning of
a path's components is that of a path around it. Slashes at the end of a path are no components
(`components_withoutSlashes`), and a name in a directory is one more (`components_join`).
-/

namespace AttributeRegistry.Path

open Text FileTree

/-- A component that may stand behind others. -/
def Component.Inner : Component → Prop
  | .root | .here => False
  | .up => True
  | .name s => PlainName s

/-- The form of a path's components. -/
structure Proper (cs : List Component) : Prop where
  first : ∀ c ∈ cs.head?, c = .root ∨ c = .here ∨ c.Inner
  others : ∀ c ∈ cs.tail, c.Inner

namespace Proper

variable {cs : List Component}

theorem of_inner (h : ∀ c ∈ cs, c.Inner) : Proper cs :=
  ⟨fun c hc => .inr (.inr (h c (List.mem_of_mem_head? hc))), fun c hc => h c (List.mem_of_mem_tail hc)⟩

/-- Every beginning of components of the form has it too. -/
theorem beginning {start : List Component} (h : Proper cs) (hbegins : start <+: cs) :
    Proper start := by
  obtain ⟨rest, rfl⟩ := hbegins
  cases start with
  | nil => exact of_inner (by simp)
  | cons c start =>
    exact ⟨h.first, fun d hd => h.others d (List.mem_append_left rest hd)⟩

end Proper

/-! ## Parts and components -/

theorem inner_of_component? {part : List Char} {c : Component} (hslash : '/' ∉ part)
    (h : component? part = some c) : c.Inner := by
  unfold component? at h
  split at h
  · cases h
  · next hhere =>
    split at h
    · cases h
      trivial
    · next hup =>
      cases h
      simp only [Bool.or_eq_true, decide_eq_true_eq, not_or] at hhere
      show PlainName (String.ofList part)
      unfold PlainName
      rw [String.toList_ofList]
      exact ⟨hslash, by simp [hhere.1, hhere.2, hup]⟩

/-- An inner component is read as it is written. -/
theorem component?_text {c : Component} (h : c.Inner) :
    '/' ∉ c.text.toList ∧ component? c.text.toList = some c := by
  cases c with
  | root => exact h.elim
  | here => exact h.elim
  | up => exact ⟨by decide, rfl⟩
  | name s =>
    obtain ⟨hslash, hspecial⟩ := h
    simp only [List.mem_cons, List.not_mem_nil, or_false, not_or] at hspecial
    refine ⟨hslash, ?_⟩
    unfold component? Component.text
    rw [if_neg (by simp [hspecial.1, hspecial.2.1]), if_neg hspecial.2.2, String.ofList_toList]

theorem filterMap_component?_text {cs : List Component} (h : ∀ c ∈ cs, c.Inner) :
    (cs.map fun c => c.text.toList).filterMap component? = cs := by
  induction cs with
  | nil => rfl
  | cons c cs ih =>
    rw [List.forall_mem_cons] at h
    rw [List.map_cons, List.filterMap_cons_some (component?_text h.1).2, ih h.2]

theorem inner_of_mem_filterMap {parts : List (List Char)} (h : ∀ part ∈ parts, '/' ∉ part) :
    ∀ c ∈ parts.filterMap component?, c.Inner := by
  intro c hc
  obtain ⟨part, hpart, hc⟩ := List.mem_filterMap.mp hc
  exact inner_of_component? (h part hpart) hc

/-- The component the first part of a path stands for, if it stands for one. -/
def first? : List Char → Option Component
  | [] => some .root
  | ['.'] => some .here
  | part => component? part

/-- The first part of a path may be the root or a period, and is read like the others if it is
neither. -/
theorem first?_text {c : Component} (h : c = .root ∨ c = .here ∨ c.Inner) :
    '/' ∉ c.text.toList ∧ first? c.text.toList = some c := by
  rcases h with rfl | rfl | hinner
  · exact ⟨by decide, rfl⟩
  · exact ⟨by decide, rfl⟩
  · obtain ⟨hslash, hc⟩ := component?_text hinner
    refine ⟨hslash, ?_⟩
    unfold first?
    split
    · next hnil =>
      rw [hnil] at hc
      cases hc
    · next hhere =>
      rw [hhere] at hc
      cases hc
    · exact hc

/-- The components of a path by its parts. -/
theorem components_eq {path : String} {part : List Char} {parts : List (List Char)}
    (hne : path ≠ "") (h : splitOn '/' path.toList = part :: parts) :
    components path = (first? part).toList ++ parts.filterMap component? := by
  have hempty : path.isEmpty = false := by
    rw [Bool.eq_false_iff, Ne, String.isEmpty_iff]
    exact hne
  unfold components
  rw [h, hempty]
  split
  · next hcons =>
    obtain ⟨rfl, rfl⟩ := List.cons.inj hcons
    rfl
  · next hcons =>
    obtain ⟨rfl, rfl⟩ := List.cons.inj hcons
    rfl
  · next hnil hhere =>
    have hfirst : first? part = component? part := by
      unfold first?
      split
      · exact absurd rfl (hnil parts)
      · exact absurd rfl (hhere parts)
      · rfl
    rw [hfirst, List.filterMap_cons]
    cases component? part <;> rfl

/-- **The components of a path have the form.** -/
theorem proper_components (path : String) : Proper (components path) := by
  have hslash : ∀ part ∈ splitOn '/' path.toList, '/' ∉ part := fun _ => sep_not_mem_of_mem_splitOn
  unfold components
  split
  · next rest hsplit =>
    rw [hsplit, List.forall_mem_cons] at hslash
    split
    · exact .of_inner (by simp)
    · exact ⟨fun c hc => .inl (Option.some.inj hc).symm, inner_of_mem_filterMap hslash.2⟩
  · next rest hsplit =>
    rw [hsplit, List.forall_mem_cons] at hslash
    exact ⟨fun c hc => .inr (.inl (Option.some.inj hc).symm), inner_of_mem_filterMap hslash.2⟩
  · exact .of_inner (inner_of_mem_filterMap hslash)

/-! ## Paths from components -/

theorem toList_ofComponents {cs : List Component} (h : cs ≠ [.root]) :
    (ofComponents cs).toList = joinWith ['/'] (cs.map fun c => c.text.toList) := by
  unfold ofComponents
  split
  · exact absurd rfl h
  · rw [String.toList_intercalate, joinWith_eq_intercalate, List.map_map]
    rfl

/-- **Components of the form are those of the path written from them.** -/
theorem components_ofComponents {cs : List Component} (h : Proper cs) :
    components (ofComponents cs) = cs := by
  by_cases hroot : cs = [.root]
  · rw [hroot]
    decide
  cases cs with
  | nil => decide
  | cons c cs =>
    have htail : ∀ d ∈ cs, d.Inner := h.others
    obtain ⟨hnoSlash, hfirst⟩ := first?_text (h.first c rfl)
    have hslash : ∀ part ∈ (c :: cs).map fun d => d.text.toList, '/' ∉ part := by
      rw [List.forall_mem_map, List.forall_mem_cons]
      exact ⟨hnoSlash, fun d hd => (component?_text (htail d hd)).1⟩
    have hsplit : splitOn '/' (ofComponents (c :: cs)).toList =
        c.text.toList :: cs.map fun d => d.text.toList := by
      rw [toList_ofComponents hroot, splitOn_joinWith (by simp) hslash, List.map_cons]
    have hne : ofComponents (c :: cs) ≠ "" := by
      -- only the root is written as nothing, and it is not alone
      intro hempty
      rw [hempty] at hsplit
      obtain ⟨hc, hcs⟩ := List.cons.inj hsplit
      rw [← hc] at hfirst
      rw [← Option.some.inj hfirst, List.map_eq_nil_iff.mp hcs.symm] at hroot
      exact hroot rfl
    rw [components_eq hne hsplit, hfirst, filterMap_component?_text htail]
    rfl

/-! ## Slashes at the end -/

theorem filterMap_component?_append_replicate (parts : List (List Char)) (n : Nat) :
    (parts ++ List.replicate n []).filterMap component? = parts.filterMap component? := by
  rw [List.filterMap_append, List.filterMap_replicate_of_none rfl, List.append_nil]

theorem components_append_slashes {kept path : String} {n : Nat} (hne : kept ≠ "")
    (h : path.toList = kept.toList ++ List.replicate n '/') : components path = components kept := by
  obtain ⟨k, hk⟩ := splitOn_append_replicate kept.toList n
  obtain ⟨part, parts, hparts⟩ := List.exists_cons_of_ne_nil (splitOn_ne_nil '/' kept.toList)
  have hpath : path ≠ "" := by
    rintro rfl
    exact hne (String.toList_eq_nil_iff.mp (List.append_eq_nil_iff.mp h.symm).1)
  rw [← h, hparts, List.cons_append] at hk
  rw [components_eq hpath hk, components_eq hne hparts, filterMap_component?_append_replicate]

/-- **Slashes at the end of a path are no components.** -/
theorem components_withoutSlashes (path : String) :
    components (withoutSlashes path) = components path := by
  obtain heq | ⟨hne, n, hn⟩ := exists_withoutSlashes path
  · rw [heq]
  · exact (components_append_slashes hne hn).symm

/-! ## Names in a directory -/

theorem component?_of_plainName {name : String} (h : PlainName name) :
    component? name.toList = some (.name name) :=
  (component?_text (c := .name name) h).2

/-- **A path into a directory has the components of the directory and the name.** -/
theorem components_join {directory name : String} (hname : PlainName name) (hne : directory ≠ "") :
    components (join directory name) = components directory ++ [.name name] := by
  obtain ⟨-, parts, n, hparts, hjoin, hdirectory⟩ := exists_parts_join hname hne
  obtain ⟨part, parts, rfl⟩ := List.exists_cons_of_ne_nil hparts
  rw [List.cons_append] at hjoin hdirectory
  rw [components_eq (join_ne_empty hname hne) hjoin, components_eq hne hdirectory,
    filterMap_component?_append_replicate, List.filterMap_append,
    List.filterMap_cons_some (component?_of_plainName hname), List.filterMap_nil, List.append_assoc]

theorem components_of_plainName {name : String} (hname : PlainName name) :
    components name = [.name name] := by
  have hproper : Proper [.name name] := .of_inner (List.forall_mem_singleton.mpr hname)
  have hname' : ofComponents [.name name] = name := String.intercalate_singleton (s := "/")
  rw [← components_ofComponents hproper, hname']

/-- The name of the file a path into a directory leads to. -/
theorem fileName?_join (directory : String) {name : String} (hname : PlainName name) :
    fileName? (join directory name) = some name := by
  have hlast : ∃ before, components (join directory name) = before ++ [.name name] := by
    by_cases hne : directory = ""
    · refine ⟨[], ?_⟩
      rw [hne, join, if_pos (by simp), components_of_plainName hname, List.nil_append]
    · exact ⟨_, components_join hname hne⟩
  obtain ⟨before, hbefore⟩ := hlast
  unfold fileName?
  rw [hbefore, List.getLast?_concat]

/-! ## Paths with the same components -/

variable {p q r : String}

theorem same_iff : same p q = true ↔ components p = components q :=
  decide_eq_true_iff

theorem same_symm (h : same p q = true) : same q p = true :=
  same_iff.mpr (same_iff.mp h).symm

theorem same_trans (h : same p q = true) (h' : same q r = true) : same p r = true :=
  same_iff.mpr ((same_iff.mp h).trans (same_iff.mp h'))

theorem fileName?_congr (h : same p q = true) : fileName? p = fileName? q := by
  unfold fileName?
  rw [same_iff.mp h]

end AttributeRegistry.Path
