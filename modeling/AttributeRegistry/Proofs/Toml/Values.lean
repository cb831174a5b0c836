import AttributeRegistry.Proofs.Toml.Texts
import AttributeRegistry.Toml.Data
import AttributeRegistry.Toml.Value

/-!
# Written values read back

What a section holds reads as the datum it is: a text, a flag, or a list of texts. A list on several
lines ends with a comma, behind which no item follows (`following_itemLines`).

Main statement: `exists_value_write`.
-/

namespace AttributeRegistry.Toml

/-- A value as a datum. -/
def Value.toDatum : Value → Datum
  | .text s => .text s
  | .flag b => .bool b
  | .texts ss => .list (ss.map .text)

variable {depth : Nat} {c : Char} {rest : List Char}

theorem toDatum_scalar (v : Scalar) (span : Span) : (Item.scalar v span).toDatum = .ok v.toDatum := by
  rw [Item.toDatum]

/-! ## Texts -/

theorem exists_writeChars (cs : List Char) :
    ∃ c more, writeChars cs = c :: more ∧ (c = '"' ∨ c = '\'') := by
  unfold writeChars
  cases style cs with
  | quoted => exact ⟨_, _, rfl, .inl rfl⟩
  | literal => exact ⟨_, _, rfl, .inr rfl⟩
  | quotedLines => exact ⟨_, _, rfl, .inl rfl⟩
  | literalLines => exact ⟨_, _, rfl, .inr rfl⟩

theorem noQuote_cons (h : c ≠ '"' ∧ c ≠ '\'') : NoQuote (c :: rest) := by
  simpa [NoQuote] using h

/-- A text is a value. -/
theorem value_text (depth : Nat) (s : String) (hrest : NoQuote rest) :
    value depth (writeChars s.toList ++ rest) =
      .ok (.scalar (.text s) ⟨writeChars s.toList ++ rest, rest⟩, rest) := by
  have hread := text_writeChars s.toList hrest
  obtain ⟨c, more, hchars, hc⟩ := exists_writeChars s.toList
  rw [hchars, List.cons_append] at hread ⊢
  have hbracket : (decide (c = '[') || decide (c = '\x7b')) = false := by
    rcases hc with rfl | rfl <;> decide
  rw [value.eq_def]
  dsimp only
  rw [hbracket, if_neg (by decide), scalar, if_pos (by simpa using hc), hread]
  simp only [Bind.bind, Except.bind, String.ofList_toList]
  rfl

/-! ## Lists -/

theorem skipGap_feed (cs : List Char) : skipGap false ('\n' :: cs) = skipGap false cs :=
  skipGap.eq_2 false cs

theorem skipGap_space (cs : List Char) : skipGap false (' ' :: cs) = skipGap false cs := by
  rw [skipGap.eq_4 false ' ' cs (by decide) fun _ heq => absurd heq (by decide)]
  rfl

theorem skipGap_solid (h : isSolid c = true) (hcomment : c ≠ '#') (cs : List Char) :
    skipGap false (c :: cs) = .ok (c :: cs) := by
  simp only [isSolid, Bool.and_eq_true, Bool.not_eq_true', bne_iff_ne] at h
  obtain ⟨⟨hblank, hfeed⟩, hreturn⟩ := h
  rw [skipGap.eq_4 false c cs hfeed fun _ heq => absurd heq hreturn, if_neg hreturn,
    if_neg (by decide), if_neg (by simp [hblank]), if_neg hcomment]

theorem skipGap_writeChars (cs rest : List Char) :
    skipGap false (writeChars cs ++ rest) = .ok (writeChars cs ++ rest) := by
  obtain ⟨c, more, hchars, hc⟩ := exists_writeChars cs
  rw [hchars, List.cons_append]
  rcases hc with rfl | rfl
  · exact skipGap_solid (by decide) (by decide) _
  · exact skipGap_solid (by decide) (by decide) _

/-- A text is an item, in front of a comma or the end of the array. -/
theorem arrayItem_text (depth : Nat) (s : String) (hc : c = ',' ∨ c = ']') (rest : List Char)
    {gap : List Char} (hgap : skipGap false gap = .ok (writeChars s.toList ++ c :: rest)) :
    ∃ i, arrayItem (value depth) gap = .ok (i, c :: rest) ∧ i.toDatum = .ok (.text s) := by
  have hquote : NoQuote (c :: rest) := by
    refine noQuote_cons ?_
    rcases hc with rfl | rfl <;> decide
  have hskip : skipGap false (c :: rest) = .ok (c :: rest) := by
    rcases hc with rfl | rfl
    · exact skipGap_solid (by decide) (by decide) _
    · exact skipGap_solid (by decide) (by decide) _
  refine ⟨_, ?_, toDatum_scalar (.text s) ⟨writeChars s.toList ++ c :: rest, c :: rest⟩⟩
  unfold arrayItem
  rw [hgap]
  simp only [Bind.bind, Except.bind]
  rw [value_text depth s hquote]
  simp only [hskip]
  rfl

/-- The lines of the items of a list. -/
def itemLines (ss : List String) : List Char :=
  ss.flatMap fun s => ' ' :: ' ' :: ' ' :: ' ' :: writeChars s.toList ++ [',', '\n']

/-- A line end and the blanks of a line lead to the text of an item. -/
theorem skipGap_itemLines (s : String) (ss : List String) (rest : List Char) :
    skipGap false ('\n' :: (itemLines (s :: ss) ++ rest)) =
      .ok (writeChars s.toList ++ ',' :: '\n' :: (itemLines ss ++ rest)) := by
  simp only [itemLines, List.flatMap_cons, List.cons_append, List.append_assoc, skipGap_feed,
    skipGap_space, skipGap_writeChars, List.nil_append]

/-- No item follows behind the last comma. -/
theorem arrayItem_end (depth : Nat) (rest : List Char) :
    ∃ f, arrayItem (value depth) ('\n' :: ']' :: rest) = .error f ∧ f.committed = false := by
  have hvalue : value depth (']' :: rest) = noValue (refuse (']' :: rest)) := by
    rw [value.eq_def]
    rfl
  unfold arrayItem
  rw [skipGap_feed, skipGap_solid (by decide) (by decide)]
  simp only [Bind.bind, Except.bind, hvalue]
  exact ⟨_, rfl, rfl⟩

/-- The items behind the first one. -/
theorem following_itemLines (depth : Nat) (rest : List Char) : ∀ ss : List String,
    ∃ items, following ',' (arrayItem (value depth))
      (',' :: '\n' :: (itemLines ss ++ ']' :: rest)) = .ok (items, ',' :: '\n' :: ']' :: rest) ∧
        itemsData items = .ok (ss.map .text)
  | [] => by
    obtain ⟨f, hend, hcommitted⟩ := arrayItem_end depth rest
    refine ⟨[], ?_, rfl⟩
    show following ',' _ (',' :: '\n' :: ']' :: rest) = _
    rw [following.eq_2, if_pos rfl, hend]
    simp [hcommitted]
  | s :: ss => by
    obtain ⟨items, hitems, hdata⟩ := following_itemLines depth rest ss
    obtain ⟨i, hitem, hi⟩ :=
      arrayItem_text depth s (.inl rfl) _ (skipGap_itemLines s ss (']' :: rest))
    have hle : (',' :: '\n' :: (itemLines ss ++ ']' :: rest)).length ≤
        ('\n' :: (itemLines (s :: ss) ++ ']' :: rest)).length := by
      simp only [itemLines, List.flatMap_cons, List.length_cons, List.length_append, List.length_nil]
      omega
    refine ⟨i :: items, ?_, ?_⟩
    · rw [following.eq_2, if_pos rfl, hitem]
      dsimp only
      rw [if_pos hle, hitems]
      rfl
    · rw [itemsData, hi, hdata]
      rfl

/-- An array of some items. -/
theorem value_array {items : List Item} {cs : List Char}
    (h : arrayItems (value depth) cs = .ok (items, ']' :: rest)) :
    value (depth + 1) ('[' :: cs) = .ok (.array items ⟨'[' :: cs, rest⟩, rest) := by
  rw [value.eq_def]
  show array (value depth) ('[' :: cs) cs = _
  unfold array
  rw [h]
  rfl

theorem arrayItems_cons {i : Item} {items : List Item} {cs after after' : List Char}
    (hfirst : ∀ more, cs ≠ ']' :: more) (hitem : arrayItem (value depth) cs = .ok (i, after))
    (hitems : following ',' (arrayItem (value depth)) after = .ok (items, after'))
    (hend : after' = ']' :: rest ∨ ∃ more, after' = ',' :: more ∧ skipGap false more =
      .ok (']' :: rest)) :
    arrayItems (value depth) cs = .ok (i :: items, ']' :: rest) := by
  have hread : optionally (separated ',' (arrayItem (value depth))) cs =
      .ok (some (i :: items), after') := by
    unfold optionally separated
    simp only [hitem, Bind.bind, Except.bind, hitems]
    rfl
  rw [arrayItems.eq_2 _ cs hfirst, hread]
  rcases hend with rfl | ⟨more, rfl, hmore⟩
  · have hskip : skipGap false (']' :: rest) = .ok (']' :: rest) :=
      skipGap_solid (by decide) (by decide) rest
    simp [Bind.bind, Except.bind, hskip, Pure.pure, Except.pure]
  · show (skipGap false more).bind _ = _
    rw [hmore]
    rfl

/-- **A list reads back.** -/
theorem exists_value_texts (depth : Nat) (ss : List String) (rest : List Char) :
    ∃ i, value (depth + 1) ((Value.texts ss).write.toList ++ rest) = .ok (i, rest) ∧
      i.toDatum = .ok (.list (ss.map .text)) := by
  have hdatum : ∀ {items : List Item} {span : Span}, itemsData items = .ok (ss.map .text) →
      (Item.array items span).toDatum = .ok (.list (ss.map .text)) := by
    intro items span h
    rw [Item.toDatum, h]
    rfl
  match ss with
  | [] => exact ⟨_, value_array (arrayItems.eq_1 _ rest), hdatum rfl⟩
  | [s] =>
    have hwrite : (Value.texts [s]).write.toList ++ rest =
        '[' :: (writeChars s.toList ++ ']' :: rest) := by
      simp [Value.write, writeText]
    obtain ⟨c, more, hchars, hc⟩ := exists_writeChars s.toList
    have hfirst : ∀ after, writeChars s.toList ++ ']' :: rest ≠ ']' :: after := by
      intro after heq
      rw [hchars] at heq
      obtain ⟨rfl, -⟩ := List.cons.inj heq
      rcases hc with hc | hc <;> cases hc
    obtain ⟨i, hitem, hi⟩ := arrayItem_text depth s (.inr rfl) rest (skipGap_writeChars _ _)
    have hnone : following ',' (arrayItem (value depth)) (']' :: rest) = .ok ([], ']' :: rest) := by
      rw [following.eq_2, if_neg (by decide)]
    rw [hwrite]
    refine ⟨_, value_array (arrayItems_cons hfirst hitem hnone (.inl rfl)), hdatum ?_⟩
    rw [itemsData, hi]
    rfl
  | s :: t :: ss =>
    have hwrite : (Value.texts (s :: t :: ss)).write.toList ++ rest =
        '[' :: '\n' :: (itemLines (s :: t :: ss) ++ ']' :: rest) := by
      simp [Value.write, writeText, itemLines, List.flatMap_map]
    obtain ⟨items, hitems, hdata⟩ := following_itemLines depth rest (t :: ss)
    obtain ⟨i, hitem, hi⟩ :=
      arrayItem_text depth s (.inl rfl) _ (skipGap_itemLines s (t :: ss) (']' :: rest))
    have hend : skipGap false ('\n' :: ']' :: rest) = .ok (']' :: rest) := by
      rw [skipGap_feed, skipGap_solid (by decide) (by decide)]
    rw [hwrite]
    refine ⟨_, value_array (arrayItems_cons (by simp) hitem hitems (.inr ⟨_, rfl, hend⟩)), hdatum ?_⟩
    rw [itemsData, hi, hdata]
    rfl

/-- No value begins with a blank. -/
theorem skipBlanks_write (v : Value) (rest : List Char) :
    skipBlanks (v.write.toList ++ rest) = v.write.toList ++ rest := by
  obtain ⟨c, cs, hwrite, hc⟩ : ∃ c cs, v.write.toList = c :: cs ∧ isBlank c = false := by
    match v with
    | .text s =>
      obtain ⟨c, cs, hchars, hc⟩ := exists_writeChars s.toList
      refine ⟨c, cs, by rw [Value.write, writeText, String.toList_ofList, hchars], ?_⟩
      rcases hc with rfl | rfl <;> decide
    | .flag false => exact ⟨'f', _, rfl, by decide⟩
    | .flag true => exact ⟨'t', _, rfl, by decide⟩
    | .texts [] => exact ⟨'[', _, rfl, by decide⟩
    | .texts [s] => exact ⟨'[', _, by simp [Value.write]; rfl, by decide⟩
    | .texts (s :: t :: ss) => exact ⟨'[', _, by simp [Value.write]; rfl, by decide⟩
  rw [hwrite, List.cons_append]
  exact List.dropWhile_cons_of_neg (by simp [hc])

/-- **A value reads back**, whatever comes behind it but quotes. -/
theorem exists_value_write (depth : Nat) (v : Value) (hrest : NoQuote rest) :
    ∃ i, value (depth + 1) (v.write.toList ++ rest) = .ok (i, rest) ∧ i.toDatum = .ok v.toDatum := by
  cases v with
  | text s =>
    have hwrite : (Value.text s).write.toList = writeChars s.toList := by
      rw [Value.write, writeText, String.toList_ofList]
    rw [hwrite]
    exact ⟨_, value_text _ s hrest, toDatum_scalar _ _⟩
  | flag b =>
    cases b with
    | false => exact ⟨_, rfl, toDatum_scalar (.flag false) ⟨_, rest⟩⟩
    | true => exact ⟨_, rfl, toDatum_scalar (.flag true) ⟨_, rest⟩⟩
  | texts ss => exact exists_value_texts depth ss rest

end AttributeRegistry.Toml
