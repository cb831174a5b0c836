import AttributeRegistry.Proofs.Storage.Found

/-!
# Trees

In a tree every entry lies in a directory and is the only one of its location (`IsTree`), so whatever
is around an entry is a directory (`IsTree.directory_of_append`). Writing files and making directories
leaves a tree a tree (`IsTree.write`, `IsTree.makeDirectory`).
-/

namespace AttributeRegistry.FileTree

variable {t t' : FileTree} {l : Location} {path : String} {names : List String} {n : Node}

/-- Every entry has a name, is the only one of its location, and lies in a directory. -/
structure IsTree (t : FileTree) : Prop where
  plain : t.Plain
  distinct : (t.nodes.map Prod.fst).Nodup
  parents : ∀ e ∈ t.nodes, e.1 ≠ [] ∧ t.node? e.1.dropLast = some .directory

namespace IsTree

theorem node?_of_mem (ht : t.IsTree) (h : (l, n) ∈ t.nodes) : t.node? l = some n := by
  obtain ⟨before, after, hnodes⟩ := List.append_of_mem h
  have hdistinct := ht.distinct
  rw [hnodes, List.map_append, List.map_cons] at hdistinct
  have hbefore : l ∉ before.map Prod.fst := fun hmem =>
    (List.disjoint_of_nodup_append hdistinct) hmem List.mem_cons_self
  unfold node?
  rw [if_neg (ht.parents _ h).1, List.lookup_eq_some_iff]
  refine ⟨before, after, hnodes, fun e he => ?_⟩
  simpa using fun heq : l = e.1 => hbefore (heq ▸ List.mem_map_of_mem he)

theorem plainName (ht : t.IsTree) (h : t.node? l = some n) : ∀ name ∈ l, PlainName name := by
  by_cases hl : l = []
  · simp [hl]
  · exact ht.plain _ (mem_nodes_of_node? h hl)

theorem node?_dropLast (ht : t.IsTree) (h : t.node? l = some n) :
    t.node? l.dropLast = some .directory := by
  by_cases hl : l = []
  · rw [hl]
    rfl
  · exact (ht.parents _ (mem_nodes_of_node? h hl)).2

/-- **Whatever is around an entry is a directory.** -/
theorem directory_of_append (ht : t.IsTree) (h : t.node? (l ++ names) = some n) (hne : names ≠ []) :
    t.node? l = some .directory := by
  induction names using List.reverseRecOn generalizing n with
  | nil => exact absurd rfl hne
  | append_singleton names name ih =>
    have hparent := ht.node?_dropLast h
    rw [← List.append_assoc, List.dropLast_concat] at hparent
    by_cases hnames : names = []
    · rwa [hnames, List.append_nil] at hparent
    · exact ih hparent hnames

theorem directory_of_concat (ht : t.IsTree) {name : String}
    (h : t.node? (l ++ (names ++ [name])) = some n) : t.node? (l ++ names) = some .directory := by
  rw [← List.append_assoc] at h
  exact ht.directory_of_append h (List.cons_ne_nil name [])

/-! ## Trees that grow -/

/-- Something put into a directory, where no directory is, lies in it. -/
theorem insert (ht : t.IsTree) (hl : l ≠ []) (hplain : ∀ name ∈ l, PlainName name)
    (hparent : t.node? l.dropLast = some .directory) (hno : t.node? l ≠ some .directory) (n : Node) :
    (t.insert l n).IsTree := by
  have hself : l.dropLast ≠ l := fun heq => hno (heq ▸ hparent)
  refine ⟨?_, ?_, ?_⟩
  · intro e he
    rcases List.mem_cons.mp he with rfl | he
    · exact hplain
    · exact ht.plain e (List.mem_filter.mp he).1
  · refine List.nodup_cons.mpr ⟨?_, ht.distinct.sublist (List.filter_sublist.map Prod.fst)⟩
    rintro hmem
    obtain ⟨e, he, rfl⟩ := List.mem_map.mp hmem
    simp at he
  · intro e he
    rcases List.mem_cons.mp he with rfl | he
    · exact ⟨hl, by rwa [node?_insert_of_ne hself]⟩
    · obtain ⟨hne, hdirectory⟩ := ht.parents e (List.mem_filter.mp he).1
      have hother : e.1.dropLast ≠ l := fun heq => hno (heq ▸ hdirectory)
      exact ⟨hne, by rwa [node?_insert_of_ne hother]⟩

/-- **Where the parts of a path lead, something may lie.** -/
theorem parent_of_follow (ht : t.IsTree) {parts : List (List Char)} {start : Location}
    (hne : parts ≠ []) (hparts : ∀ part ∈ parts, '/' ∉ part) (h : t.follow start parts = .ok l) :
    t.node? l.dropLast = some .directory ∧ ∀ name ∈ l, PlainName name := by
  induction parts generalizing start with
  | nil => exact absurd rfl hne
  | cons part parts ih =>
    rw [List.forall_mem_cons] at hparts
    rw [follow] at h
    split at h
    · cases h
    · cases h
    · next hstart =>
      split at h
      · cases h
      · by_cases hmore : parts = []
        · subst hmore
          obtain rfl := Except.ok.inj h
          have hplain := ht.plainName hstart
          unfold step
          split
          · exact ⟨ht.node?_dropLast hstart, hplain⟩
          · next hhere =>
            split
            · exact ⟨ht.node?_dropLast (ht.node?_dropLast hstart),
                fun name hname => hplain name (List.mem_of_mem_dropLast hname)⟩
            · next hup =>
              rw [List.dropLast_concat, List.forall_mem_append, List.forall_mem_singleton]
              refine ⟨hstart, hplain, ?_⟩
              unfold PlainName
              rw [String.toList_ofList]
              simp only [Bool.or_eq_true, decide_eq_true_eq, not_or] at hhere
              exact ⟨hparts.1, by simp [hhere.1, hhere.2, hup]⟩
        · exact ih hmore hparts.2 h

theorem parent_of_locate (ht : t.IsTree) (h : t.locate path = .ok l) :
    t.node? l.dropLast = some .directory ∧ ∀ name ∈ l, PlainName name :=
  ht.parent_of_follow (Text.splitOn_ne_nil '/' _) (fun _ => Text.sep_not_mem_of_mem_splitOn)
    (locate_eq_ok_iff.mp h).2

/-- **Writing a file leaves a tree a tree.** -/
theorem write {text : String} (ht : t.IsTree) (h : t.write path text = .ok t') : t'.IsTree := by
  obtain ⟨-, l, hl, hno, rfl⟩ := write_eq_ok_iff.mp h
  obtain ⟨hparent, hplain⟩ := ht.parent_of_locate hl
  exact ht.insert (ne_nil_of_node?_ne_directory hno) hplain hparent hno _

/-- **Making a directory leaves a tree a tree.** -/
theorem makeDirectory (ht : t.IsTree) (h : t.makeDirectory path = .ok t') : t'.IsTree := by
  obtain ⟨l, hl, hnone, rfl⟩ := makeDirectory_eq_ok h
  have hno : t.node? l ≠ some .directory := by simp [hnone]
  obtain ⟨hparent, hplain⟩ := ht.parent_of_locate hl
  exact ht.insert (ne_nil_of_node?_ne_directory hno) hplain hparent hno _

end IsTree

end AttributeRegistry.FileTree
