import AttributeRegistry.Proofs.Json.Spelling

/-!
# Reading what was written

A JSON value reads back from each of its spellings: the readers of texts, names, lists and records take
what is written for them, wherever it stands.

Main statements: a record reads back if its fields do, written or left out (`reads_record`), a list if
its items do (`reads_list`), and a whole text if its value does (`decode_of_spells`).
-/

namespace AttributeRegistry.Json

variable {α : Type}

/-- A reader takes every spelling of a value for `a`: behind any blanks, and in front of any text that
no number goes on with. -/
def Reads (r : Reader α) (a : α) (v : Json) : Prop :=
  ∀ ⦃gap cs rest : List Char⦄, Gap gap → Spells v cs → Ends rest →
    r (gap ++ (cs ++ rest)) = .ok (a, rest)

/-! ## Texts -/

theorem reads_readText (expected s : String) : Reads (readText expected) s (.str s) := by
  intro gap cs rest hgap hs _
  cases hs
  unfold readText
  rw [skipGap_writeString hgap]
  exact readString_flatMap s rest

theorem reads_text (depth : Nat) (s : String) : Reads (Shape.text.readJson depth) s (.str s) := by
  intro gap cs rest hgap hs hrest
  rw [Shape.readJson]
  exact reads_readText "a string" s hgap hs hrest

theorem reads_parsed {expected s : String} {parse : String → Except String α} {a : α}
    (h : parse s = .ok a) (depth : Nat) :
    Reads ((Shape.parsed expected parse).readJson depth) a (.str s) := by
  intro gap cs rest hgap hs hrest
  rw [Shape.readJson, reads_readText expected s hgap hs hrest]
  simp only [Bind.bind, Except.bind, h]
  rfl

theorem reads_choice {name s : String} {cases : List (String × α)} {a : α}
    (h : Shape.pickCase cases s = .ok a) (depth : Nat) :
    Reads ((Shape.choice name cases).readJson depth) a (.str s) := by
  intro gap cs rest hgap hs hrest
  have htext := reads_readText "variant identifier" s gap_nil hs hrest
  cases hs
  rw [List.nil_append, writeString_append] at htext
  rw [Shape.readJson, readChoice, skipGap_writeString hgap]
  simp only [htext, Bind.bind, Except.bind, h]
  rfl

/-- A text that is there reads back as a value. -/
theorem reads_some {s : Shape α} {a : α} {text : String} {depth : Nat}
    (h : Reads (s.readJson depth) a (.str text)) :
    Reads ((Shape.optional s).readJson depth) (some a) (.str text) := by
  intro gap cs rest hgap hs hrest
  have hread := h gap_nil hs hrest
  cases hs
  rw [List.nil_append, writeString_append] at hread
  rw [Shape.readJson, skipGap_writeString hgap]
  split
  · next h' => cases h'
  · simp only [hread, Bind.bind, Except.bind]
    rfl

/-! ## Arrays -/

section Items

variable {item : Reader α} {a : α} {text gap rest : List Char} {first : Bool}

theorem nextItem_end (hgap : Gap gap) :
    nextItem first (gap ++ ']' :: rest) = .ok (false, ']' :: rest) := by
  unfold nextItem
  rw [skipGap_append hgap, skipGap_cons (by decide)]
  rfl

theorem nextItem_comma (h : Begins text) (hgap : Gap gap) :
    nextItem first (comma first ++ (gap ++ (text ++ rest))) = .ok (true, text ++ rest) := by
  obtain ⟨c, tail, rfl, hc, hend⟩ := h
  have hskip : skipGap (gap ++ (c :: tail ++ rest)) = c :: (tail ++ rest) := by
    rw [skipGap_append hgap, List.cons_append, skipGap_cons hc]
  unfold nextItem
  cases first with
  | true =>
    rw [comma, if_pos rfl, List.nil_append, hskip]
    split
    · next h => cases h
    · next h =>
      cases h
      exact absurd rfl hend
    · next h =>
      cases h
      rfl
  | false =>
    rw [comma, if_neg Bool.false_ne_true, List.singleton_append, skipGap_cons (by decide)]
    split
    · next h => cases h
    · next h => cases h
    · next h =>
      cases h
      rw [if_neg Bool.false_ne_true, if_pos rfl, hskip]
      split
      · next h => cases h
      · next h =>
        cases h
        exact absurd rfl hend
      · rfl

/-- The items of an array read back, up to its closing bracket. -/
theorem items_of_spells {as : List α} {vs : List Json} (h : List.Forall₂ (Reads item) as vs)
    (hs : SpellsItems first vs text) (rest : List Char) :
    items item first (text ++ rest) = .ok (as, ']' :: rest) := by
  induction h generalizing first text with
  | nil =>
    cases hs with
    | nil hgap =>
      rw [items, List.append_assoc, List.singleton_append, nextItem_end hgap]
      rfl
  | @cons a v as vs hread hreads ih =>
    cases hs with
    | @cons _ _ _ gap cs text hgap hv more =>
      have hnext : nextItem first (comma first ++ (gap ++ (cs ++ (text ++ rest)))) =
          .ok (true, cs ++ (text ++ rest)) := nextItem_comma hv.begins hgap
      have hitem := hread gap_nil hv (more.ends rest)
      rw [List.nil_append] at hitem
      have hlt : (text ++ rest).length <
          (comma first ++ (gap ++ (cs ++ (text ++ rest)))).length := by
        obtain ⟨c, tail, rfl, -⟩ := hv.begins
        simp only [List.length_append, List.length_cons]
        omega
      simp only [List.append_assoc]
      rw [items, hnext]
      simp only [Bind.bind, Except.bind, if_true, hitem, if_pos hlt, ih more]
      rfl

/-- **An array reads back if its items do.** -/
theorem reads_list {s : Shape α} {n : Nat} {as : List α} {vs : List Json}
    (h : List.Forall₂ (Reads (s.readJson n)) as vs) :
    Reads ((Shape.list s).readJson (n + 1)) as (.arr vs) := by
  intro gap cs rest hgap hs _
  cases hs with
  | arr hitems =>
    rw [Shape.readJson, readList, skipGap_append hgap, List.cons_append, skipGap_cons (by decide)]
    simp only [items_of_spells h hitems, leaving]
    rfl

/-- An array reads back if every item reads back from what is written for it. -/
theorem reads_list_map {s : Shape α} {n : Nat} {write : α → Json} {as : List α}
    (h : ∀ a ∈ as, Reads (s.readJson n) a (write a)) :
    Reads ((Shape.list s).readJson (n + 1)) as (.arr (as.map write)) := by
  refine reads_list ?_
  rw [List.forall₂_map_right_iff]
  exact List.forall₂_same.mpr h

end Items

/-! ## Objects -/

section Members

variable {σ : Type} {member : String → σ → Reader σ} {key : String} {gap rest : List Char}
  {first : Bool} {state state' : σ}

/-- A reader takes members into a state one by one. -/
inductive Takes (member : String → σ → Reader σ) : σ → List (String × Json) → σ → Prop
  | nil (state : σ) : Takes member state [] state
  | cons {key : String} {v : Json} {state state' last : σ} {ms : List (String × Json)}
      (h : Reads (fun cs => member key state (':' :: cs)) state' v)
      (more : Takes member state' ms last) :
      Takes member state ((key, v) :: ms) last

theorem nextKey_end (hgap : Gap gap) :
    nextKey first (gap ++ '\x7d' :: rest) = .ok (none, '\x7d' :: rest) := by
  unfold nextKey
  rw [skipGap_append hgap, skipGap_cons (by decide)]
  rfl

theorem nextKey_comma (hgap : Gap gap) :
    nextKey first (comma first ++ (gap ++ (writeString key ++ rest))) = .ok (some key, rest) := by
  have hnext : nextKey first (comma first ++ (gap ++ (writeString key ++ rest))) =
      (readString (key.toList.flatMap escapeChar ++ '"' :: rest)).map
        fun p => (some p.1, p.2) := by
    unfold nextKey
    cases first with
    | true =>
      rw [comma, if_pos rfl, List.nil_append, skipGap_writeString hgap]
      rfl
    | false =>
      rw [comma, if_neg Bool.false_ne_true, List.singleton_append, skipGap_cons (by decide)]
      split
      · next h => cases h
      · next h => cases h
      · next h =>
        cases h
        rw [if_neg Bool.false_ne_true, if_pos rfl, skipGap_writeString hgap]
        rfl
  rw [hnext, readString_flatMap]
  rfl

/-- The members of an object are taken, up to its closing bracket. -/
theorem members_of_spells {ms : List (String × Json)} {text : List Char}
    (h : Takes member state ms state') (hs : SpellsMembers first ms text) (rest : List Char) :
    members member first state (text ++ rest) = .ok (state', '\x7d' :: rest) := by
  induction h generalizing first text with
  | nil =>
    cases hs with
    | nil hgap =>
      rw [members, List.append_assoc, List.singleton_append, nextKey_end hgap]
      rfl
  | @cons key v state state' last ms hread htakes ih =>
    cases hs with
    | @cons _ _ _ _ gap gap' cs text hgap hgap' hv more =>
      have hnext : nextKey first (comma first ++ (gap ++ (writeString key ++
          ':' :: (gap' ++ (cs ++ (text ++ rest)))))) =
        .ok (some key, ':' :: (gap' ++ (cs ++ (text ++ rest)))) := nextKey_comma hgap
      have hmember := hread hgap' hv (more.ends rest)
      have hlt : (text ++ rest).length < (comma first ++ (gap ++ (writeString key ++
          ':' :: (gap' ++ (cs ++ (text ++ rest)))))).length := by
        simp only [List.length_append, List.length_cons]
        omega
      simp only [List.append_assoc, List.cons_append]
      rw [members, hnext]
      simp only [Bind.bind, Except.bind, hmember, if_pos hlt, ih more]

end Members

/-! ## Records -/

section Records

variable {ρ σ : Type} {n : Nat}

/-- Values are written as the members of a record, field by field. A field is left out only if it has
the value that stands for its absence. -/
inductive Written (n : Nat) : {ρ σ : Type} → Fields ρ σ → ρ → List (String × Json) → Prop
  | nil : Written n .nil () []
  | cons {α ρ σ : Type} {name : String} {absent : Option α} {s : Shape α} {fields : Fields ρ σ}
      {a : α} {as : ρ} {v : Json} {ms : List (String × Json)}
      (h : Reads (s.readJson n) a v) (more : Written n fields as ms) :
      Written n (.cons name absent s fields) (a, as) ((name, v) :: ms)
  | absent {α ρ σ : Type} {name : String} {s : Shape α} {fields : Fields ρ σ} {a : α} {as : ρ}
      {ms : List (String × Json)} (more : Written n fields as ms) :
      Written n (.cons name (some a) s fields) (a, as) ms

/-- Only fields are written. -/
theorem Written.mem_names {fields : Fields ρ σ} {values : ρ} {ms : List (String × Json)}
    (h : Written n fields values ms) : ∀ m ∈ ms, m.1 ∈ fields.names := by
  induction h with
  | nil => simp
  | cons h more ih =>
    rw [List.forall_mem_cons]
    exact ⟨List.mem_cons_self, fun m hm => List.mem_cons_of_mem _ (ih m hm)⟩
  | absent more ih => exact fun m hm => List.mem_cons_of_mem _ (ih m hm)

/-- Members of other names pass by a field. -/
theorem takes_cons {name : String} {absent : Option α} {s : Shape α} {fields : Fields ρ σ}
    {slot : Option α} {slots slots' : σ} {ms : List (String × Json)}
    {stranger : String → Reader Unit}
    (h : Takes (fun key slots => fields.readJsonMember n key (stranger key) slots) slots ms slots')
    (hname : ∀ m ∈ ms, name ≠ m.1) :
    Takes (fun key slots =>
        (Fields.cons name absent s fields).readJsonMember n key (stranger key) slots)
      (slot, slots) ms (slot, slots') := by
  induction h with
  | nil => exact .nil _
  | cons h more ih =>
    rw [List.forall_mem_cons] at hname
    -- the first field does not know the name and hands it on to the others
    refine .cons ?_ (ih hname.2)
    intro gap cs rest hgap hs hrest
    have hread := h hgap hs hrest
    dsimp only at hread ⊢
    rw [Fields.readJsonMember.eq_def]
    simp only [if_neg hname.1, hread]
    rfl

/-- **The members of a record fill its slots with the values they were written for.** -/
theorem takes_written {fields : Fields ρ σ} {values : ρ} {ms : List (String × Json)}
    (hnames : fields.names.Nodup) (h : Written n fields values ms) :
    ∃ slots, fields.finish slots = .ok values ∧ ∀ stranger : String → Reader Unit,
      Takes (fun key slots => fields.readJsonMember n key (stranger key) slots) fields.empty
        ms slots := by
  have hne : ∀ {α : Type} {name : String} {absent : Option α} {s : Shape α} {ρ σ : Type}
      {fields : Fields ρ σ} {as : ρ} {ms : List (String × Json)},
      (Fields.cons name absent s fields).names.Nodup → Written n fields as ms →
        ∀ m ∈ ms, name ≠ m.1 := by
    rintro _ _ _ _ _ _ _ _ _ hnames more m hm rfl
    exact (List.nodup_cons.mp hnames).1 (more.mem_names m hm)
  induction h with
  | nil => exact ⟨(), rfl, fun _ => .nil _⟩
  | @cons α ρ σ name absent s fields a as v ms h more ih =>
    obtain ⟨slots, hfinish, htakes⟩ := ih (List.nodup_cons.mp hnames).2
    refine ⟨(some a, slots), ?_, fun stranger => .cons ?_
      (takes_cons (htakes stranger) (hne hnames more))⟩
    · rw [Fields.finish, hfinish]
      rfl
    · -- the slot is still empty, so the value of its own name is read into it
      intro gap cs rest hgap hs hrest
      have hread := h hgap hs hrest
      have hcolon : ∀ cs, readColon (':' :: cs) = .ok ((), cs) := fun _ => rfl
      dsimp only
      rw [Fields.empty, Fields.readJsonMember, if_pos rfl]
      simp only [hcolon, Bind.bind, Except.bind, hread]
      rfl
  | @absent α ρ σ name s fields a as ms more ih =>
    obtain ⟨slots, hfinish, htakes⟩ := ih (List.nodup_cons.mp hnames).2
    refine ⟨(none, slots), ?_, fun stranger => takes_cons (htakes stranger) (hne hnames more)⟩
    rw [Fields.finish, hfinish]
    rfl

/-- **A record reads back if its fields do.** -/
theorem reads_record {name : String} {strict : Bool} {fields : Fields ρ σ} {make : ρ → α}
    {values : ρ} {ms : List (String × Json)} (hnames : fields.names.Nodup)
    (h : Written n fields values ms) :
    Reads ((Shape.record name strict fields make).readJson (n + 1)) (make values) (.obj ms) := by
  obtain ⟨slots, hfinish, htakes⟩ := takes_written hnames h
  intro gap cs rest hgap hs _
  cases hs with
  | obj hmembers =>
    have hread := fun stranger => members_of_spells (htakes stranger) hmembers rest
    rw [Shape.readJson, readRecord, skipGap_append hgap, List.cons_append, skipGap_cons (by decide)]
    simp only [leaving, Bind.bind, Except.bind]
    rw [hread]
    simp only [hfinish]
    rfl

end Records

/-! ## Whole texts -/

/-- **A text reads back if its value does.** -/
theorem decode_of_spells {s : Shape α} {a : α} {v : Json} {text : String} {cs gap : List Char}
    (h : Reads (s.readJson maxDepth) a v) (hs : Spells v cs) (hgap : Gap gap)
    (htext : text.toList = cs ++ gap) : decode s text = .ok a := by
  have hread := h gap_nil hs (ends_of_gap hgap ends_nil)
  have hskip := skipGap_append hgap []
  rw [List.append_nil] at hread hskip
  have hchars : decodeChars s (cs ++ gap) = .ok a := by
    unfold decodeChars
    rw [List.nil_append] at hread
    rw [hread]
    simp only [Bind.bind, Except.bind, hskip]
    rfl
  unfold decode
  rw [htext, hchars]
  rfl

end AttributeRegistry.Json
