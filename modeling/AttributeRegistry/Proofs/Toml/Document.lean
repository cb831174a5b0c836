import AttributeRegistry.Proofs.Text.Lines
import AttributeRegistry.Proofs.Toml.Values
import AttributeRegistry.Toml.Reader
import Mathlib.Data.List.Forall2

/-!
# Written sections read back

A section is read line by line: its header names a table that is not there yet, and each entry is added
to that table. So a table that holds the entries of a section is what reading its text leaves
(`lines_section`), whatever is in front of it and behind it.

The document shows the section only once the next one begins. A section with one name is then behind the
others (`yields_top`); one with two names is in the table of the first, which its header makes
(`yields_under_new`) or finds last (`yields_under_last`).
-/

namespace AttributeRegistry.Toml

/-! ## Keys -/

/-- A name that needs no quotes as a key. -/
def IsBare (name : String) : Prop :=
  name.toList ≠ [] ∧ ∀ c ∈ name.toList, isBareKeyChar c = true

theorem isBare_iff {name : String} :
    IsBare name ↔ name ≠ "" ∧ name.toList.all isBareKeyChar = true :=
  and_congr (not_congr String.toList_eq_nil_iff) List.all_eq_true.symm

/-- What comes behind a name that needs no quotes. -/
def EndsName (rest : List Char) : Prop :=
  ∀ c ∈ rest.head?, isBareKeyChar c = false

variable {name : String} {names : List String} {rest : List Char}

theorem IsBare.exists_cons (h : IsBare name) :
    ∃ c cs, name.toList = c :: cs ∧ isBareKeyChar c = true := by
  obtain ⟨c, cs, hcs⟩ := List.exists_cons_of_ne_nil h.1
  exact ⟨c, cs, hcs, h.2 c (by simp [hcs])⟩

theorem ne_of_isBareKeyChar {c d : Char} (hc : isBareKeyChar c = true)
    (hd : isBareKeyChar d = false) : c ≠ d := by
  rintro rfl
  rw [hc] at hd
  cases hd

/-- What may stand in a name stands for itself wherever a blank or a line end does not. -/
theorem skipBlanks_of_isBareKeyChar {c : Char} (h : isBareKeyChar c = true) (cs : List Char) :
    skipBlanks (c :: cs) = c :: cs := by
  have hspace : c ≠ ' ' := ne_of_isBareKeyChar h (by decide)
  have htab : c ≠ '\t' := ne_of_isBareKeyChar h (by decide)
  exact List.dropWhile_cons_of_neg (by simp [isBlank, hspace, htab])

/-- A name is a part of a key. -/
theorem keyPart_of_isBare (h : IsBare name) (hrest : EndsName rest) :
    keyPart (name.toList ++ rest) =
      .ok (⟨name, ⟨name.toList ++ rest, rest⟩⟩, skipBlanks rest) := by
  obtain ⟨c, cs, hcs, hc⟩ := h.exists_cons
  have hquote : ¬ (c = '"' ∨ c = '\'') := by
    rw [not_or]
    exact ⟨ne_of_isBareKeyChar hc (by decide), ne_of_isBareKeyChar hc (by decide)⟩
  obtain ⟨htake, hdrop⟩ := Text.takeWhile_dropWhile_append h.2 hrest
  have hstart : skipBlanks (name.toList ++ rest) = name.toList ++ rest := by
    rw [hcs, List.cons_append, skipBlanks_of_isBareKeyChar hc]
  have hempty : name.toList.isEmpty = false := by
    simpa using h.1
  have hcons : name.toList ++ rest = c :: (cs ++ rest) := by
    rw [hcs, List.cons_append]
  unfold keyPart
  simp only [hstart]
  split
  · next heq =>
    rw [hcons] at heq
    cases heq
  · next heq =>
    rw [hcons] at heq
    obtain ⟨rfl, -⟩ := List.cons.inj heq
    rw [if_neg (by simpa using hquote), htake, hdrop, hempty, if_neg (by decide),
      String.ofList_toList]

/-- The further names of a header and its end. -/
def namesEnd (names : List String) (rest : List Char) : List Char :=
  (names.flatMap fun name => '.' :: name.toList) ++ ']' :: rest

theorem endsName_namesEnd (names : List String) (rest : List Char) :
    EndsName (namesEnd names rest) ∧ skipBlanks (namesEnd names rest) = namesEnd names rest := by
  cases names with
  | nil => exact ⟨by simp [namesEnd, EndsName, isBareKeyChar], rfl⟩
  | cons name names => exact ⟨by simp [namesEnd, EndsName, isBareKeyChar], rfl⟩

theorem following_names (hbare : ∀ name ∈ names, IsBare name) (rest : List Char) :
    ∃ ks : List Key, following '.' keyPart (namesEnd names rest) = .ok (ks, ']' :: rest) ∧
      ks.map Key.name = names := by
  induction names with
  | nil =>
    refine ⟨[], ?_, rfl⟩
    show following '.' keyPart (']' :: rest) = _
    rw [following.eq_2, if_neg (by decide)]
  | cons name names ih =>
    obtain ⟨hname, hnames⟩ := List.forall_mem_cons.mp hbare
    obtain ⟨ks, hks, hmap⟩ := ih hnames
    obtain ⟨hends, hskip⟩ := endsName_namesEnd names rest
    have hcons : namesEnd (name :: names) rest = '.' :: (name.toList ++ namesEnd names rest) := by
      simp [namesEnd]
    refine ⟨⟨name, ⟨name.toList ++ namesEnd names rest, namesEnd names rest⟩⟩ :: ks, ?_, ?_⟩
    · rw [hcons, following.eq_2, if_pos rfl, keyPart_of_isBare hname hends, hskip]
      dsimp only
      rw [if_pos (by simp), hks]
      rfl
    · rw [List.map_cons, hmap]

theorem key_of_separated {cs : List Char} {path : List Key} {k : Key}
    (hread : separated '.' keyPart cs = .ok (path ++ [k], rest))
    (hlength : (path ++ [k]).length ≤ maxDepth) : key cs = .ok ((path, k), rest) := by
  unfold key check
  dsimp only
  rw [hread]
  simp only [labeled, Except.mapError, Bind.bind, Except.bind, List.getLast?_append,
    List.getLast?_singleton, Option.some_or, if_pos hlength, List.dropLast_concat]
  rfl

theorem separated_cons {first : Key} {ks : List Key} {cs more : List Char}
    (hfirst : keyPart cs = .ok (first, more)) (hmore : following '.' keyPart more = .ok (ks, rest)) :
    separated '.' keyPart cs = .ok (first :: ks, rest) := by
  unfold separated
  simp only [hfirst, Bind.bind, Except.bind, hmore]
  rfl

/-- The names of a header are a key. -/
theorem key_names (hname : IsBare name) (hnames : ∀ name ∈ names, IsBare name)
    (hlength : names.length < maxDepth) (rest : List Char) :
    ∃ path k, key (name.toList ++ namesEnd names rest) = .ok ((path, k), ']' :: rest) ∧
      (path ++ [k]).map Key.name = name :: names := by
  obtain ⟨ks, hks, hmap⟩ := following_names hnames rest
  obtain ⟨hends, hskip⟩ := endsName_namesEnd names rest
  have hfirst := keyPart_of_isBare hname hends
  rw [hskip] at hfirst
  have hread := separated_cons hfirst hks
  obtain ⟨path, k, hpath⟩ := (List.eq_nil_or_concat _).resolve_left (List.cons_ne_nil _ ks)
  rw [List.concat_eq_append] at hpath
  rw [hpath] at hread
  refine ⟨path, k, key_of_separated hread ?_, ?_⟩
  · rw [← hpath, List.length_cons, ← List.length_map Key.name, hmap]
    exact hlength
  · rw [← hpath, List.map_cons, hmap]

/-- A name in front of a value is a key. -/
theorem key_name (hname : IsBare name) (rest : List Char) :
    ∃ span, key (name.toList ++ ' ' :: '=' :: rest) = .ok (([], ⟨name, span⟩), '=' :: rest) := by
  have hends : EndsName (' ' :: '=' :: rest) := by
    simp [EndsName, isBareKeyChar]
  have hskip : skipBlanks (' ' :: '=' :: rest) = '=' :: rest := rfl
  have hnone : following '.' keyPart ('=' :: rest) = .ok ([], '=' :: rest) := by
    rw [following.eq_2, if_neg (by decide)]
  have hfirst := keyPart_of_isBare hname hends
  rw [hskip] at hfirst
  exact ⟨_, @key_of_separated _ _ [] _ (separated_cons hfirst hnone) (by simp [maxDepth])⟩

/-! ## Entries -/

/-- What was read is an entry of a section. -/
def IsEntry (read : Key × Item) (e : String × Value) : Prop :=
  read.1.name = e.1 ∧ read.2.toDatum = .ok e.2.toDatum

/-- A table by a header holds some entries. -/
structure Table.Holds (t : Table) (entries : List (String × Value)) : Prop where
  kind : t.kind = .header
  entries : List.Forall₂ IsEntry t.entries entries

theorem put_of_not_mem {k : Key} {i : Item} : ∀ {es : List (Key × Item)},
    (∀ e ∈ es, e.1.name ≠ k.name) → Table.put k i es = es ++ [(k, i)]
  | [], _ => rfl
  | e :: es, h => by
    obtain ⟨hne, hes⟩ := List.forall_mem_cons.mp h
    rw [Table.put, if_neg hne, put_of_not_mem hes]
    rfl

theorem endFilledLine_feed (rest : List Char) : endFilledLine ('\n' :: rest) = .ok rest :=
  rfl

/-- An entry as it is written. -/
def entryLine (e : String × Value) : List Char :=
  e.1.toList ++ ' ' :: '=' :: ' ' :: e.2.write.toList ++ ['\n']

theorem Table.Holds.map_name {t : Table} {done : List (String × Value)} (h : t.Holds done) :
    t.entries.map (fun e => e.1.name) = done.map Prod.fst := by
  obtain ⟨-, hentries⟩ := h
  generalize t.entries = es at hentries
  induction hentries with
  | nil => rfl
  | cons hfirst _ ih => rw [List.map_cons, List.map_cons, ih, hfirst.1]

/-- A new name is added behind the others. -/
theorem exists_add {p : Progress} {done : List (String × Value)} (h : p.current.Holds done)
    {e : String × Value} (hnew : e.1 ∉ done.map Prod.fst) (span : Span) {i : Item}
    (hi : i.toDatum = .ok e.2.toDatum) :
    ∃ t : Table, t.Holds (done ++ [e]) ∧
      p.add [] ⟨e.1, span⟩ i = .ok { p with current := t } := by
  have hne : ∀ e' ∈ p.current.entries, e'.1.name ≠ e.1 := by
    rw [← h.map_name] at hnew
    exact fun e' he' heq => hnew (List.mem_map.mpr ⟨e', he', heq⟩)
  have hfind : p.current.find? e.1 = none := by
    unfold Table.find?
    rw [List.find?_eq_none.mpr fun e' he' => by simpa using hne e' he']
    rfl
  have hinsert : ∀ within, p.current.addAt false within [] ⟨e.1, span⟩ i =
      .ok (.mk p.current.kind p.current.span (p.current.entries ++ [(⟨e.1, span⟩, i)])) := by
    intro within
    show p.current.add within [] ⟨e.1, span⟩ i = _
    unfold Table.add
    rw [if_neg (by simp), hfind, if_neg (by simp), Table.insert, put_of_not_mem hne]
    rfl
  have hadd : ∃ whole, p.add [] ⟨e.1, span⟩ i = .ok { p with
      current := .mk p.current.kind whole (p.current.entries ++ [(⟨e.1, span⟩, i)]) } := by
    unfold Progress.add
    simp only [hinsert, Bind.bind, Except.bind]
    exact ⟨_, rfl⟩
  have hlast : List.Forall₂ IsEntry [(⟨e.1, span⟩, i)] [e] := .cons ⟨rfl, hi⟩ .nil
  obtain ⟨whole, hadd⟩ := hadd
  exact ⟨.mk _ whole _, ⟨h.kind, List.rel_append h.entries hlast⟩, hadd⟩

/-- A line that gives an entry is added to the table of the section. -/
theorem exists_pairLine {p : Progress} {done : List (String × Value)} (h : p.current.Holds done)
    {e : String × Value} (hname : IsBare e.1) (hnew : e.1 ∉ done.map Prod.fst) (rest : List Char) :
    ∃ t : Table, t.Holds (done ++ [e]) ∧
      pairLine p (entryLine e ++ rest) = .ok ({ p with current := t }, rest) := by
  have hquote : NoQuote ('\n' :: rest) := noQuote_cons (by decide)
  obtain ⟨i, hvalue, hi⟩ := exists_value_write 78 e.2 hquote
  obtain ⟨span, hkey⟩ := key_name hname (' ' :: (e.2.write.toList ++ '\n' :: rest))
  obtain ⟨t, ht, hadd⟩ := exists_add h hnew span hi
  refine ⟨t, ht, ?_⟩
  have hline : entryLine e ++ rest =
      e.1.toList ++ ' ' :: '=' :: ' ' :: (e.2.write.toList ++ '\n' :: rest) := by
    simp [entryLine]
  have hblank : skipBlanks (' ' :: (e.2.write.toList ++ '\n' :: rest)) =
      e.2.write.toList ++ '\n' :: rest := skipBlanks_write e.2 _
  rw [hline]
  unfold pairLine commit
  simp only [hkey, equals, Bind.bind, Except.bind, hblank]
  rw [show maxDepth = 78 + 1 from rfl, hvalue]
  simp only [endFilledLine_feed, hadd]
  rfl

/-! ## Lines -/

theorem lines_of_line {p p' : Progress} {c : Char} {cs after : List Char}
    (hcs : skipBlanks cs = c :: after) (hline : line p (c :: after) = .ok (p', rest))
    (hle : rest.length ≤ after.length) : lines p cs = lines p' rest := by
  rw [lines.eq_def]
  split
  · next h =>
    rw [hcs] at h
    cases h
  · next h =>
    rw [hcs] at h
    cases h
    rw [hline]
    simp only [Bind.bind, Except.bind, if_pos hle]

theorem lines_nil (p : Progress) : lines p [] = .ok p := by
  rw [lines.eq_def]
  rfl

theorem lines_feed (p : Progress) (rest : List Char) : lines p ('\n' :: rest) = lines p rest :=
  lines_of_line rfl rfl (Nat.le_refl _)

theorem line_of_isBareKeyChar {c : Char} (hc : isBareKeyChar c = true) (p : Progress)
    (cs : List Char) : line p (c :: cs) = pairLine p (c :: cs) := by
  unfold line
  split
  · next heq =>
    obtain ⟨rfl, -⟩ := List.cons.inj heq
    cases hc
  · next heq =>
    obtain ⟨rfl, -⟩ := List.cons.inj heq
    have hcomment : c ≠ '#' := ne_of_isBareKeyChar hc (by decide)
    have hfeed : c ≠ '\n' := ne_of_isBareKeyChar hc (by decide)
    have hreturn : c ≠ '\r' := ne_of_isBareKeyChar hc (by decide)
    rw [if_neg (by simp [hcomment, hfeed]), if_neg hreturn]
  · next heq => cases heq

/-- **The lines of some entries are added to the table of the section**, behind what is done. -/
theorem lines_entries : ∀ {p : Progress} {done entries : List (String × Value)},
    p.current.Holds done → (∀ e ∈ entries, IsBare e.1) →
      ((done ++ entries).map Prod.fst).Nodup → ∀ rest : List Char,
        ∃ t : Table, t.Holds (done ++ entries) ∧
          lines p (entries.flatMap entryLine ++ rest) = lines { p with current := t } rest
  | p, done, [], h, _, _, rest => ⟨p.current, by rwa [List.append_nil], rfl⟩
  | p, done, e :: entries, h, hbare, hnodup, rest => by
    obtain ⟨hname, hnames⟩ := List.forall_mem_cons.mp hbare
    have hnew : e.1 ∉ done.map Prod.fst := by
      rw [List.map_append, List.nodup_append] at hnodup
      exact fun hmem => hnodup.2.2 _ hmem _ List.mem_cons_self rfl
    obtain ⟨t, ht, hpair⟩ := exists_pairLine h hname hnew (entries.flatMap entryLine ++ rest)
    rw [List.append_cons] at hnodup
    obtain ⟨t', ht', hlines⟩ :=
      lines_entries (p := { p with current := t }) ht hnames hnodup rest
    refine ⟨t', by rwa [List.append_cons], ?_⟩
    -- What decides the kind of a line is its first character, here that of the name.
    obtain ⟨c, cs, hcs, hc⟩ := hname.exists_cons
    have hstart : entryLine e ++ (entries.flatMap entryLine ++ rest) =
        c :: (cs ++ ' ' :: '=' :: ' ' :: e.2.write.toList ++ ['\n'] ++
          (entries.flatMap entryLine ++ rest)) := by
      simp [entryLine, hcs]
    rw [List.flatMap_cons, List.append_assoc, ← hlines]
    rw [hstart] at hpair ⊢
    refine lines_of_line (skipBlanks_of_isBareKeyChar hc _) ?_ ?_
    · rw [line_of_isBareKeyChar hc, hpair]
    · simp only [List.length_append]
      omega

/-- The line of a header. -/
theorem exists_header (hname : IsBare name) (hnames : ∀ name ∈ names, IsBare name)
    (hlength : names.length < maxDepth) (rest : List Char) :
    ∃ path k span, header ('[' :: (name.toList ++ namesEnd names ('\n' :: rest))) =
      .ok ((⟨path, k, false⟩, span), rest) ∧ (path ++ [k]).map Key.name = name :: names := by
  obtain ⟨path, k, hkey, hmap⟩ := key_names hname hnames hlength ('\n' :: rest)
  obtain ⟨c, cs, hcs, hc⟩ := hname.exists_cons
  have hbracket : c ≠ '[' := ne_of_isBareKeyChar hc (by decide)
  refine ⟨path, k, ⟨'[' :: (name.toList ++ namesEnd names ('\n' :: rest)), '\n' :: rest⟩, ?_, hmap⟩
  rw [hcs, List.cons_append] at hkey ⊢
  have hlong : ¬ cs.length + (namesEnd names ('\n' :: rest)).length + 1 + 1 < 2 := by omega
  unfold header
  simp [hbracket, hkey, hlong, commit, Bind.bind, Except.bind, Except.mapError, Text.dropBeginning?,
    endFilledLine_feed, Pure.pure, Except.pure]

/-! ## Sections -/

theorem toList_write (s : Section) : s.write.toList =
    '[' :: (s.name.toList ++ ']' :: '\n' :: s.entries.flatMap entryLine) := by
  have hentries : (String.join (s.entries.map fun e => e.1 ++ " = " ++ e.2.write ++ "\n")).toList =
      s.entries.flatMap entryLine := by
    rw [String.toList_join, List.flatMap_map]
    exact congrArg (s.entries.flatMap ·) (funext fun e => by simp [entryLine])
  show ("[" ++ s.name ++ "]\n" ++
    String.join (s.entries.map fun e => e.1 ++ " = " ++ e.2.write ++ "\n")).toList = _
  rw [String.toList_append, hentries]
  simp

/-- A section whose entries read back: no key needs quotes, and none occurs twice. -/
structure Section.Plain (s : Section) : Prop where
  bare : ∀ e ∈ s.entries, IsBare e.1
  nodup : (s.entries.map Prod.fst).Nodup

theorem plain_iff {s : Section} : s.Plain ↔
    (∀ key ∈ s.entries.map Prod.fst, key ≠ "" ∧ key.toList.all isBareKeyChar = true) ∧
      (s.entries.map Prod.fst).Nodup := by
  simp only [← isBare_iff, List.forall_mem_map]
  exact ⟨fun h => ⟨h.bare, h.nodup⟩, fun h => ⟨h.1, h.2⟩⟩

/-- **A section reads as a table that holds its entries**, if its header names a table that is not
there yet. -/
theorem lines_section {s : Section} (h : s.Plain) (name : String) (names : List String)
    (hs : s.name.toList = name.toList ++ names.flatMap fun name => '.' :: name.toList)
    (hname : IsBare name) (hnames : ∀ name ∈ names, IsBare name) (hlength : names.length < maxDepth)
    (p : Progress) (rest : List Char) :
    ∃ path k span, (path ++ [k]).map Key.name = name :: names ∧ ∀ document : Table,
      p.enter ⟨path, k, false⟩ span =
        .ok ⟨document, some ⟨path, k, false⟩, .mk .header (some span) []⟩ →
      ∃ t : Table, t.Holds s.entries ∧
        lines p (s.write.toList ++ rest) = lines ⟨document, some ⟨path, k, false⟩, t⟩ rest := by
  obtain ⟨path, k, span, hheader, hmap⟩ :=
    exists_header hname hnames hlength (s.entries.flatMap entryLine ++ rest)
  have hwrite : s.write.toList ++ rest =
      '[' :: (name.toList ++ namesEnd names ('\n' :: (s.entries.flatMap entryLine ++ rest))) := by
    rw [toList_write, hs]
    simp [namesEnd]
  have hempty : (Table.mk .header (some span) []).Holds [] := ⟨rfl, .nil⟩
  refine ⟨path, k, span, hmap, fun document henter => ?_⟩
  obtain ⟨t, ht, hlines⟩ := lines_entries
    (p := ⟨document, some ⟨path, k, false⟩, .mk .header (some span) []⟩) hempty h.bare h.nodup rest
  refine ⟨t, ht, ?_⟩
  rw [hwrite, ← hlines]
  refine lines_of_line rfl ?_ ?_
  · show headerLine p _ = _
    unfold headerLine
    simp only [hheader, Bind.bind, Except.bind, henter]
    rfl
  · simp only [namesEnd, List.length_append, List.length_cons]
    omega

/-! ## Data -/

/-- A section as a datum. -/
def Section.toDatum (s : Section) : Datum :=
  .dict (s.entries.map fun e => (.text e.1, e.2.toDatum))

theorem IsBare.ne_dateKey (h : IsBare name) : name ≠ dateKey := by
  rintro rfl
  exact absurd (h.2 '$' (by decide)) (by decide)

theorem entriesData_cons {k : Key} {i : Item} {es : List (Key × Item)} {d : Datum}
    {data : List (Datum × Datum)} (hi : i.toDatum = .ok d) (hes : entriesData es = .ok data) :
    entriesData ((k, i) :: es) = .ok ((.text k.name, d) :: data) := by
  rw [entriesData, hi, hes]
  rfl

theorem entriesData_append {es es' : List (Key × Item)} {data data' : List (Datum × Datum)}
    (hes : entriesData es = .ok data) (hes' : entriesData es' = .ok data') :
    entriesData (es ++ es') = .ok (data ++ data') := by
  induction es generalizing data with
  | nil =>
    obtain rfl : [] = data := Except.ok.inj hes
    exact hes'
  | cons e es ih =>
    obtain ⟨k, i⟩ := e
    rw [entriesData] at hes
    cases hi : i.toDatum with
    | error r =>
      rw [hi] at hes
      cases hes
    | ok d =>
      cases hrest : entriesData es with
      | error r =>
        rw [hi, hrest] at hes
        cases hes
      | ok data =>
        rw [hi, hrest] at hes
        obtain rfl := Except.ok.inj hes
        exact entriesData_cons hi (ih hrest)

/-- A table that is no date is the data of its entries. -/
theorem toDatum_of_entriesData {kind : TableKind} {span : Option Span} {es : List (Key × Item)}
    {data : List (Datum × Datum)} (hdate : ∀ e ∈ es.head?, e.1.name ≠ dateKey)
    (h : entriesData es = .ok data) : (Table.mk kind span es).toDatum = .ok (.dict data) := by
  rw [Table.toDatum]
  cases es with
  | nil =>
    obtain rfl : [] = data := Except.ok.inj h
    rfl
  | cons e es =>
    obtain ⟨k, i⟩ := e
    dsimp only [List.head?_cons]
    rw [if_neg (hdate _ rfl), h]
    rfl

theorem Table.Holds.toDatum {t : Table} {s : Section} (h : t.Holds s.entries) (hs : s.Plain) :
    (Item.table t).toDatum = .ok s.toDatum := by
  rw [Item.toDatum]
  obtain ⟨kind, span, es⟩ := t
  have hentries : List.Forall₂ IsEntry es s.entries := h.entries
  have hdate : ∀ e ∈ es.head?, e.1.name ≠ dateKey := by
    intro e he heq
    have hmem : e.1.name ∈ s.entries.map Prod.fst := by
      rw [← h.map_name]
      exact List.mem_map.mpr ⟨e, List.mem_of_mem_head? he, rfl⟩
    obtain ⟨e', he', hname⟩ := List.mem_map.mp hmem
    exact (hs.bare e' he').ne_dateKey (hname.trans heq)
  refine toDatum_of_entriesData hdate ?_
  clear hdate h
  generalize s.entries = entries at hentries
  induction hentries with
  | nil => rfl
  | @cons e e' es entries hfirst _ ih =>
    obtain ⟨k, i⟩ := e
    obtain ⟨hk, hi⟩ := hfirst
    rw [List.map_cons, ← hk]
    exact entriesData_cons hi ih

/-! ## Entering sections -/

variable {kind : TableKind} {span : Option Span} {es : List (Key × Item)}

theorem find?_of_new (h : ∀ e ∈ es, e.1.name ≠ name) : (Table.mk kind span es).find? name = none := by
  unfold Table.find?
  rw [List.find?_eq_none.mpr fun e he => by simpa using h e he]
  rfl

theorem find?_of_last {k : Key} {i : Item} (hk : k.name = name) (h : ∀ e ∈ es, e.1.name ≠ name) :
    (Table.mk kind span (es ++ [(k, i)])).find? name = some i := by
  unfold Table.find? Table.entries
  rw [List.find?_append, List.find?_eq_none.mpr fun e he => by simpa using h e he]
  simp [hk]

theorem put_of_last {k k' : Key} {i i' : Item} (hk : k'.name = k.name) :
    ∀ {es : List (Key × Item)}, (∀ e ∈ es, e.1.name ≠ k.name) →
      Table.put k i (es ++ [(k', i')]) = es ++ [(k', i)]
  | [], _ => by rw [List.nil_append, Table.put, if_pos hk]; rfl
  | e :: es, h => by
    obtain ⟨hne, hes⟩ := List.forall_mem_cons.mp h
    rw [List.cons_append, Table.put, if_neg hne, put_of_last hk hes]
    rfl

theorem takeUp_of_new {path : List Key} {k : Key} (h : ∀ e ∈ es, e.1.name ≠ k.name) :
    Progress.takeUp ⟨path, k, false⟩ (.mk kind span es) = .ok ([], .mk kind span es) := by
  unfold Progress.takeUp
  rw [find?_of_new h]

theorem place_of_new {path : List Key} {k : Key} (h : ∀ e ∈ es, e.1.name ≠ k.name) (t : Table) :
    Progress.place ⟨path, k, false⟩ t (.mk kind span es) = .mk kind span (es ++ [(k, .table t)]) := by
  rw [← put_of_not_mem h]
  rfl

section Change

variable {α : Type} {change : Table → Except Clash (α × Table)} {a : α} {t t' : Table} {k k' : Key}

/-- A table that is not there yet is made. -/
theorem changeUnder_new (h : ∀ e ∈ es, e.1.name ≠ k.name)
    (hchange : change (.empty .implied) = .ok (a, t)) :
    (Table.mk kind span es).changeUnder change [] [k] =
      .ok (a, .mk kind span (es ++ [(k, .table t)])) := by
  simp only [Table.changeUnder, find?_of_new h, hchange, Bind.bind, Except.bind]
  rw [← put_of_not_mem h]
  rfl

/-- The last table is changed in its place. -/
theorem changeUnder_last (hk : k'.name = k.name) (h : ∀ e ∈ es, e.1.name ≠ k.name)
    (ht : t.kind ≠ .inline) (hchange : change t = .ok (a, t')) :
    (Table.mk kind span (es ++ [(k', .table t)])).changeUnder change [] [k] =
      .ok (a, .mk kind span (es ++ [(k', .table t')])) := by
  have hput : Table.put k (.table t') (es ++ [(k', .table t)]) = es ++ [(k', .table t')] :=
    put_of_last hk h
  simp only [Table.changeUnder, find?_of_last hk h, hchange, if_neg ht, Bind.bind, Except.bind]
  rw [← hput]
  rfl

end Change

/-! ## Documents -/

/-- From some progress on, a text makes a document with some data. -/
def Progress.Yields (p : Progress) (text : List Char) (d : Datum) : Prop :=
  ∃ p' t, lines p text = .ok p' ∧ p'.finish = .ok t ∧ t.toDatum = .ok d

/-- The entries of the document, if the text ended here. -/
def Progress.Shows (p : Progress) (es : List (Key × Item)) : Prop :=
  p.finish = .ok (.mk .header none es)

variable {p : Progress} {s : Section} {d : Datum} {h : Header}

theorem Progress.Yields.of_lines_eq {p' : Progress} {text : List Char} (h : p'.Yields rest d)
    (hlines : lines p text = lines p' rest) : p.Yields text d := by
  obtain ⟨last, t, hread, hfinish, ht⟩ := h
  exact ⟨last, t, hlines.trans hread, hfinish, ht⟩

theorem Progress.Shows.enter (hp : p.Shows es) {span : Span} {entries : List (Key × Item)}
    {document : Table} (h' : (Table.mk .header none es).changeUnder (takeUp h) [] h.path =
      .ok (entries, document)) :
    p.enter h span = .ok ⟨document, some h, .mk .header (some span) entries⟩ := by
  unfold Progress.enter
  rw [hp]
  simp only [Bind.bind, Except.bind, h']
  rfl

theorem Progress.shows_of_changeUnder {document current : Table}
    (h' : document.changeUnder (fun t => .ok ((), place h current t)) [] h.path =
      .ok ((), .mk .header none es)) : Progress.Shows ⟨document, some h, current⟩ es := by
  unfold Progress.Shows Progress.finish
  simp only [Bind.bind, Except.bind, h']
  rfl

theorem Progress.Yields.feed (h : p.Yields rest d) : p.Yields ('\n' :: rest) d :=
  h.of_lines_eq (lines_feed p rest)

/-- At the end, the document has the data of its entries. -/
theorem Progress.Shows.yields (hp : p.Shows es) {data : List (Datum × Datum)}
    (hdate : ∀ e ∈ es.head?, e.1.name ≠ dateKey) (h : entriesData es = .ok data) :
    p.Yields [] (.dict data) :=
  ⟨p, _, lines_nil p, hp, toDatum_of_entriesData hdate h⟩

/-- What a text makes from the beginning on is what it reads as. -/
theorem parse_of_yields {text : String} (hmark : ∀ c ∈ text.toList.head?, c ≠ '\ufeff')
    (h : Progress.start.Yields text.toList d) : parse text = .ok d := by
  obtain ⟨p, t, hread, hfinish, ht⟩ := h
  have hdocument : document text.toList = .ok t := by
    unfold document
    split
    · next heq => exact absurd rfl (hmark _ (by rw [heq]; rfl))
    · rw [hread]
      simp only [Bind.bind, Except.bind, hfinish]
      rfl
  unfold parse
  rw [hdocument]
  dsimp only
  rw [ht]
  rfl

/-- A section at the top is added behind the others. -/
theorem yields_top (h : p.Shows es) (hs : s.Plain) (hname : s.name = name) (hbare : IsBare name)
    (hnew : ∀ e ∈ es, e.1.name ≠ name) (hrest : ∀ (p' : Progress) place t, t.Holds s.entries →
      p'.Shows (es ++ [(⟨name, place⟩, .table t)]) → p'.Yields rest d) :
    p.Yields (s.write.toList ++ rest) d := by
  obtain ⟨path, ⟨last, place⟩, span, hmap, hread⟩ :=
    lines_section hs name [] (by simp [hname]) hbare (by simp) (by decide) p rest
  obtain ⟨rfl, rfl⟩ : path = [] ∧ last = name := by
    cases path with
    | nil => exact ⟨rfl, by simpa using hmap⟩
    | cons _ _ => simp at hmap
  obtain ⟨t, ht, hlines⟩ := hread _ (h.enter (takeUp_of_new hnew))
  refine (hrest _ place t ht (Progress.shows_of_changeUnder ?_)).of_lines_eq hlines
  exact congrArg (fun t => Except.ok ((), t)) (place_of_new hnew t)

theorem toList_writeSections_cons (first second : Section) (rest : List Section) :
    (writeSections (first :: second :: rest)).toList =
      first.write.toList ++ '\n' :: (writeSections (second :: rest)).toList := by
  simp [writeSections, String.toList_intercalate]

theorem toList_writeSections_singleton (part : Section) :
    (writeSections [part]).toList = part.write.toList ++ [] := by
  simp [writeSections]

/-- Sections at the top are added behind the others, one after the other. -/
theorem yields_sections : ∀ {parts : List Section} {p : Progress} {es : List (Key × Item)}
    {data : List (Datum × Datum)}, parts ≠ [] → p.Shows es → (∀ e ∈ es, e.1.name ≠ dateKey) →
      entriesData es = .ok data → (∀ part ∈ parts, part.Plain ∧ IsBare part.name) →
        (es.map (fun e => e.1.name) ++ parts.map Section.name).Nodup →
          p.Yields (writeSections parts).toList
            (.dict (data ++ parts.map fun part => (.text part.name, part.toDatum)))
  | [], _, _, _, hne, _, _, _, _, _ => absurd rfl hne
  | part :: parts, p, es, data, _, hp, hdate, hdata, hparts, hnodup => by
    obtain ⟨⟨hplain, hbare⟩, hparts⟩ := List.forall_mem_cons.mp hparts
    have hnew : ∀ e ∈ es, e.1.name ≠ part.name := by
      rw [List.nodup_append] at hnodup
      exact fun e he => hnodup.2.2 _ (List.mem_map_of_mem he) _ List.mem_cons_self
    have hdate' : ∀ place t, ∀ e ∈ es ++ [((⟨part.name, place⟩ : Key), Item.table t)],
        e.1.name ≠ dateKey := fun _ _ => by
      rw [List.forall_mem_append, List.forall_mem_singleton]
      exact ⟨hdate, hbare.ne_dateKey⟩
    have hdata' : ∀ place t, t.Holds part.entries →
        entriesData (es ++ [(⟨part.name, place⟩, .table t)]) =
          .ok (data ++ [(.text part.name, part.toDatum)]) :=
      fun _ _ ht => entriesData_append hdata (entriesData_cons (ht.toDatum hplain) rfl)
    rw [List.map_cons, List.append_cons]
    cases parts with
    | nil =>
      rw [toList_writeSections_singleton]
      refine yields_top hp hplain rfl hbare hnew fun p place t ht hp => ?_
      rw [List.map_nil, List.append_nil]
      exact hp.yields (fun e he => hdate' place t e (List.mem_of_mem_head? he)) (hdata' place t ht)
    | cons second rest =>
      rw [toList_writeSections_cons]
      refine yields_top hp hplain rfl hbare hnew fun p place t ht hp => .feed ?_
      refine yields_sections (List.cons_ne_nil _ _) hp (hdate' place t) (hdata' place t ht) hparts ?_
      rwa [List.map_append, List.append_assoc]

/-- **Sections with one name each read back**, each as a table under its name. -/
theorem parse_writeSections {parts : List Section} (hne : parts ≠ [])
    (hparts : ∀ part ∈ parts, part.Plain ∧ IsBare part.name)
    (hnodup : (parts.map Section.name).Nodup) : parse (writeSections parts) =
      .ok (.dict (parts.map fun part => (.text part.name, part.toDatum))) := by
  have hmark : ∀ c ∈ (writeSections parts).toList.head?, c ≠ '\ufeff' := by
    cases parts with
    | nil => exact absurd rfl hne
    | cons part parts => cases parts <;> simp [writeSections, Section.write]
  have hstart : Progress.start.Shows [] := rfl
  exact parse_of_yields hmark (yields_sections hne hstart (List.forall_mem_nil _) rfl hparts hnodup)

variable {outer inner : String}

/-- A section in another one is read below it. -/
theorem lines_section_under (hs : s.Plain)
    (hname : s.name.toList = outer.toList ++ '.' :: inner.toList) (houter : IsBare outer)
    (hinner : IsBare inner) (p : Progress) (rest : List Char) :
    ∃ place place' span, ∀ document : Table,
      p.enter ⟨[⟨outer, place⟩], ⟨inner, place'⟩, false⟩ span = .ok ⟨document,
        some ⟨[⟨outer, place⟩], ⟨inner, place'⟩, false⟩, .mk .header (some span) []⟩ →
      ∃ t : Table, t.Holds s.entries ∧ lines p (s.write.toList ++ rest) =
        lines ⟨document, some ⟨[⟨outer, place⟩], ⟨inner, place'⟩, false⟩, t⟩ rest := by
  obtain ⟨path, ⟨last, place'⟩, span, hmap, hread⟩ := lines_section hs outer [inner]
    (by simpa using hname) houter (by simpa using hinner) (by simp [maxDepth]) p rest
  obtain ⟨place, rfl, rfl⟩ : ∃ place, path = [⟨outer, place⟩] ∧ last = inner := by
    cases path with
    | nil => simp at hmap
    | cons first path =>
      obtain ⟨hfirst, hpath⟩ := List.cons.inj hmap
      cases path with
      | nil => exact ⟨first.span, by rw [← hfirst], by simpa using hpath⟩
      | cons _ _ => simp at hpath
  exact ⟨place, place', span, hread⟩

/-- The first section in another one makes that one. -/
theorem yields_under_new (h : p.Shows es) (hs : s.Plain)
    (hname : s.name.toList = outer.toList ++ '.' :: inner.toList) (houter : IsBare outer)
    (hinner : IsBare inner) (hnew : ∀ e ∈ es, e.1.name ≠ outer)
    (hrest : ∀ (p' : Progress) place place' t, t.Holds s.entries →
      p'.Shows (es ++ [(⟨outer, place⟩, .table (.mk .implied none [(⟨inner, place'⟩, .table t)]))]) →
        p'.Yields rest d) :
    p.Yields (s.write.toList ++ rest) d := by
  obtain ⟨place, place', span, hread⟩ := lines_section_under hs hname houter hinner p rest
  obtain ⟨t, ht, hlines⟩ := hread _ (h.enter (changeUnder_new hnew rfl))
  refine (hrest _ place place' t ht (Progress.shows_of_changeUnder ?_)).of_lines_eq hlines
  exact changeUnder_last rfl hnew (by decide) rfl

/-- A further section in the last one is added there. -/
theorem yields_under_last {place : Span} {subs : List (Key × Item)}
    (h : p.Shows (es ++ [(⟨outer, place⟩, .table (.mk .implied none subs))])) (hs : s.Plain)
    (hname : s.name.toList = outer.toList ++ '.' :: inner.toList) (houter : IsBare outer)
    (hinner : IsBare inner) (hes : ∀ e ∈ es, e.1.name ≠ outer)
    (hnew : ∀ e ∈ subs, e.1.name ≠ inner) (hrest : ∀ (p' : Progress) place' t, t.Holds s.entries →
      p'.Shows (es ++ [(⟨outer, place⟩, .table (.mk .implied none
        (subs ++ [(⟨inner, place'⟩, .table t)])))]) → p'.Yields rest d) :
    p.Yields (s.write.toList ++ rest) d := by
  obtain ⟨_, place', span, hread⟩ := lines_section_under hs hname houter hinner p rest
  obtain ⟨t, ht, hlines⟩ := hread _ (h.enter (changeUnder_last rfl hes (by simp [Table.kind])
    (takeUp_of_new hnew)))
  refine (hrest _ place' t ht (Progress.shows_of_changeUnder ?_)).of_lines_eq hlines
  exact changeUnder_last rfl hes (by simp [Table.kind])
    (congrArg (fun t => Except.ok ((), t)) (place_of_new hnew t))

end AttributeRegistry.Toml
