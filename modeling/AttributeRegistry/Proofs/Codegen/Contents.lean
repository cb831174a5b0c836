import AttributeRegistry.Proofs.Codegen.RustComments
import AttributeRegistry.Codegen.Artifact

/-!
# Modules of different targets differ

The texts a run writes are told apart by how they begin: a Python module with a number sign, a
manifest with a brace, a Java module with a package behind two comment lines, where a Rust module has
comments, marks and declarations only.

Main statements: no two modules of a run have one text (`target_eq_of_content_eq`), and none has the
text of a manifest (`content_ne_toText`).
-/

namespace AttributeRegistry.Codegen

open Text

/-! ## Rust and Java -/

/-- How a line of a constant begins. -/
def Rust.Opening (line : List Char) : Prop :=
  ['/', '/'] <+: line ∨ ['#', '['] <+: line ∨ ['p', 'u'] <+: line

theorem Rust.opening_of_isComment {line : List Char} (h : Rust.IsComment line) :
    Rust.Opening line := by
  obtain ⟨⟨rest, rfl⟩, -⟩ := h
  exact .inl ⟨'/' :: rest, rfl⟩

theorem Rust.opening_of_mem_listSection {title : String} {items : List (List Char)}
    {line : List Char} (h : line ∈ Rust.listSection title items) : Rust.Opening line := by
  refine .inl ?_
  unfold Rust.listSection at h
  split at h
  · cases h
  · rcases List.mem_append.mp h with h | h
    · rcases List.mem_cons.mp h with rfl | h
      · exact ⟨_, rfl⟩
      rcases List.mem_cons.mp h with rfl | h
      · exact ⟨_, rfl⟩
      · rw [List.mem_singleton.mp h]
        exact ⟨_, rfl⟩
    · obtain ⟨item, -, rfl⟩ := List.mem_map.mp h
      exact ⟨_, rfl⟩

/-- **Every line of a constant is a comment, a mark or a declaration.** -/
theorem Rust.opening_of_mem_constant {d : Doc} {line : List Char} (h : line ∈ Rust.constant d) :
    Rust.Opening line := by
  unfold Rust.constant at h
  simp only [List.mem_append] at h
  rcases h with ((((h | h) | h) | h) | h) | h
  · exact opening_of_isComment (isComment_of_mem_docLines h)
  · exact opening_of_isComment (isComment_of_mem_notes h)
  · exact opening_of_mem_listSection h
  · exact opening_of_mem_listSection h
  · unfold Rust.deprecation at h
    split at h
    · cases h
    · rw [List.mem_singleton.mp h]
      simp only [String.toList_append, List.append_assoc]
      exact .inr (.inl ⟨_, rfl⟩)
  · rw [List.mem_singleton.mp h, Rust.declaration]
    simp only [String.toList_append, List.append_assoc]
    exact .inr (.inr ⟨_, rfl⟩)

/-- The two comment lines of Rust and Java. -/
def commentHeader (v : Version) : List Char :=
  unlines [("// " ++ header).toList, ("// " ++ versionLine v).toList]

theorem Java.exists_emit_eq (ds : List Doc) (v : Version) (p : JavaProfile) :
    ∃ rest, Java.emit ds v p = commentHeader v ++ '\n' :: 'p' :: 'a' :: rest := by
  have hlines : ∃ more, Java.lines ds v p =
      [("// " ++ header).toList, ("// " ++ versionLine v).toList] ++
        [] :: ("package " ++ p.package ++ ";").toList :: more := ⟨_, rfl⟩
  obtain ⟨more, hlines⟩ := hlines
  have hpackage : ("package " ++ p.package ++ ";").toList =
      'p' :: 'a' :: ("ckage ".toList ++ p.package.toList ++ ";".toList) := by
    rw [String.toList_append, String.toList_append,
      show "package ".toList = 'p' :: 'a' :: "ckage ".toList by decide]
    rfl
  refine ⟨"ckage ".toList ++ p.package.toList ++ ";".toList ++ '\n' :: unlines more, ?_⟩
  rw [emit, hlines, unlines_append, ← commentHeader, unlines_cons, unlines_cons, hpackage,
    List.nil_append, List.cons_append, List.cons_append]

theorem Rust.ne_package {d : Doc} {more : List (List Char)} {rest : List Char} :
    unlines (Rust.constant d ++ more) ≠ 'p' :: 'a' :: rest := by
  intro h
  obtain ⟨line, lines, hlines⟩ : ∃ line lines, Rust.constant d = line :: lines := by
    refine List.exists_cons_of_ne_nil ?_
    unfold Rust.constant
    simp
  have hopening : Rust.Opening line := Rust.opening_of_mem_constant (by rw [hlines]; simp)
  rw [hlines, List.cons_append, unlines_cons] at h
  rcases hopening with ⟨tail, rfl⟩ | ⟨tail, rfl⟩ | ⟨tail, rfl⟩
  all_goals
    rw [List.append_assoc] at h
    exact absurd h (by simp)

theorem rust_ne_java (ds : List Doc) (v : Version) (p : JavaProfile) :
    Rust.emit ds v ≠ Java.emit ds v p := by
  intro h
  obtain ⟨rest, hjava⟩ := Java.exists_emit_eq ds v p
  rw [hjava, Rust.emit, Rust.lines, unlines_append, commentHeader, List.append_cancel_left_eq] at h
  -- behind the empty line stands a constant on one side, the package on the other
  cases ds with
  | nil => cases h
  | cons d ds =>
    rw [List.flatMap_cons, List.cons_append, unlines_cons, List.nil_append, List.cons.injEq] at h
    exact Rust.ne_package h.2

/-! ## Texts by their first character -/

theorem head?_rust (ds : List Doc) (v : Version) : (Rust.emit ds v).head? = some '/' := by
  unfold Rust.emit Rust.lines
  rw [List.cons_append, unlines_cons, String.toList_append]
  rfl

theorem head?_java (ds : List Doc) (v : Version) (p : JavaProfile) :
    (Java.emit ds v p).head? = some '/' := by
  unfold Java.emit Java.lines
  rw [List.append_assoc, List.cons_append, unlines_cons, String.toList_append]
  rfl

theorem head?_python (ds : List Doc) (v : Version) (p : PythonProfile) :
    (Python.emit ds v p).head? = some '#' := by
  unfold Python.emit Python.lines
  rw [List.append_assoc, List.append_assoc, List.cons_append, unlines_cons, String.toList_append]
  rfl

theorem head?_toText (m : Manifest) : m.toText.toList.head? = some '\x7b' := by
  unfold Manifest.toText Manifest.toJson Json.toIndentedText
  rw [String.toList_append, String.toList_ofList, Json.indented]
  · rfl
  · simp

/-! ## Runs -/

/-- How the modules of a target begin. -/
def openingOf : Target → Char
  | .python => '#'
  | _ => '/'

theorem head?_content (v : ValidRegistry) (p : Profiles) (t : Target) :
    (render v p t).content.toList.head? = some (openingOf t) := by
  unfold render
  dsimp only
  rw [String.toList_ofList]
  cases t with
  | rust => exact head?_rust _ _
  | python => exact head?_python _ _ _
  | java => exact head?_java _ _ _

/-- **Modules of different targets have different texts.** -/
theorem target_eq_of_content_eq {v : ValidRegistry} {p : Profiles} {s t : Target}
    (h : (render v p s).content = (render v p t).content) : s = t := by
  have hopening : openingOf s = openingOf t := by
    have hhead := head?_content v p s
    rw [h, head?_content v p t] at hhead
    exact (Option.some.inj hhead).symm
  have hne := rust_ne_java (docs v) v.registry.version p.java
  cases s <;> cases t
  case rust.java => exact absurd (String.ofList_injective h) hne
  case java.rust => exact absurd (String.ofList_injective h.symm) hne
  all_goals first | rfl | exact absurd hopening (by decide)

/-- **No module has the text of a manifest.** -/
theorem content_ne_toText (v : ValidRegistry) (p : Profiles) (t : Target) (m : Manifest) :
    (render v p t).content ≠ m.toText := by
  intro h
  have hhead := head?_content v p t
  rw [h, head?_toText] at hhead
  cases t <;> exact absurd hhead (by decide)

end AttributeRegistry.Codegen
