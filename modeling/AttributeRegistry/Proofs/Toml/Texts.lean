import AttributeRegistry.Toml.Text
import AttributeRegistry.Toml.Writer
import Mathlib.Logic.Basic

/-!
# Written texts read back

A text is written in one of four forms, and each reads back as the text: what is escaped stands for one
character each (`escaped_of_escapeAlways?`), and quotes that stand for themselves are too few in a row
to end a text of several lines.

Main statement: `text_writeChars`.
-/

namespace AttributeRegistry.Toml

/-! ## Escapes -/

theorem hexValue?_toUpper {n : Nat} (h : n < 16) :
    Text.hexValue? (Text.hexDigit n).toUpper = some n := by
  have hall : ∀ n ∈ List.range 16, Text.hexValue? (Text.hexDigit n).toUpper = some n := by decide
  exact hall n (List.mem_range.mpr h)

/-- A number below 256 in four hexadecimal digits. -/
theorem hexEscape_four {c : Char} (h : c.toNat < 0x100) (rest : List Char) :
    hexEscape 4 ('0' :: '0' :: (Text.hexDigit (c.toNat / 16)).toUpper ::
      (Text.hexDigit (c.toNat % 16)).toUpper :: rest) = .ok (c, rest) := by
  have hzero : Text.hexValue? '0' = some 0 := by decide
  have hhigh := hexValue?_toUpper (show c.toNat / 16 < 16 by omega)
  have hlow := hexValue?_toUpper (show c.toNat % 16 < 16 by omega)
  have hnumber : 16 * (c.toNat / 16) + c.toNat % 16 = c.toNat := by omega
  have hvalid : c.toNat.isValidChar := c.valid
  unfold hexEscape
  simp [hzero, hhigh, hlow, Text.hexNumber?, hnumber, hvalid]

/-- A character that begins neither a blank nor a line end. -/
def isSolid (c : Char) : Bool :=
  !isBlank c && c != '\n' && c != '\r'

theorem afterJoinedLine?_of_isSolid {c : Char} (h : isSolid c = true) (cs : List Char) :
    afterJoinedLine? (c :: cs) = none := by
  simp only [isSolid, Bool.and_eq_true, Bool.not_eq_true', bne_iff_ne] at h
  obtain ⟨⟨hblank, hfeed⟩, hreturn⟩ := h
  have hline : afterLineEnd? (c :: cs) = none := by
    unfold afterLineEnd?
    split
    · next heq => exact absurd (List.cons.inj heq).1 hfeed
    · next heq => exact absurd (List.cons.inj heq).1 hreturn
    · rfl
  rw [afterJoinedLine?, skipBlanks, List.dropWhile_cons_of_neg (by simp [hblank]), hline]
  rfl

/-- **An escape stands for the character it is written for**, and joins no lines. -/
theorem escaped_of_escapeAlways? {c : Char} {written : List Char}
    (h : escapeAlways? c = some written) : ∃ d code, written = '\\' :: d :: code ∧
      isSolid d = true ∧ ∀ rest, escaped (d :: code ++ rest) = .ok (c, rest) := by
  unfold escapeAlways? at h
  by_cases hnamed : c = '\x08' ∨ c = '\t' ∨ c = '\x0c' ∨ c = '\r' ∨ c = '\\'
  · rcases hnamed with rfl | rfl | rfl | rfl | rfl
    all_goals
      obtain rfl := Option.some.inj h
      exact ⟨_, _, rfl, by decide, fun _ => rfl⟩
  · simp only [not_or] at hnamed
    obtain ⟨hb, ht, hf, hr, hbackslash⟩ := hnamed
    rw [if_neg hb, if_neg ht, if_neg hf, if_neg hr, if_neg hbackslash] at h
    split at h
    · next hcontrol =>
      obtain rfl := Option.some.inj h
      have hlt : c.toNat < 0x100 := by
        simp only [isControl, Bool.or_eq_true, Bool.and_eq_true, decide_eq_true_eq] at hcontrol
        rcases hcontrol with hcontrol | rfl
        · omega
        · decide
      refine ⟨_, _, rfl, by decide, fun rest => ?_⟩
      show labeled _ (commit (hexEscape 4 ('0' :: '0' :: _ :: _ :: rest))) = _
      rw [hexEscape_four hlt]
      rfl
    · cases h

/-- Whatever is no control character may stand in a comment, unless it ends the line. -/
theorem isCommentChar_of_isControl {c : Char} (h : isControl c = false) (hfeed : c ≠ '\n') :
    isCommentChar c = true := by
  simp only [isControl, Bool.or_eq_false_iff, Bool.and_eq_false_iff, decide_eq_false_iff_not, ne_eq,
    not_not] at h
  obtain ⟨hlow, hdelete⟩ := h
  simp only [isCommentChar, Bool.or_eq_true, Bool.and_eq_true, decide_eq_true_eq]
  by_cases htab : c = '\t'
  · exact .inl htab
  · have hle : 0x20 ≤ c.toNat := by
      rcases hlow with (hlow | hlow) | hlow
      · omega
      · exact absurd hlow htab
      · exact absurd hlow hfeed
    exact .inr ⟨hle, hdelete⟩

/-- What is not escaped stands for itself. -/
theorem isPlain_of_escapeAlways? {c : Char} (h : escapeAlways? c = none) (hquote : c ≠ '"')
    (hfeed : c ≠ '\n') : isPlain c = true ∧ c ≠ '\\' ∧ c ≠ '\r' := by
  have hcontrol : isControl c = false := by
    cases hcontrol : isControl c with
    | false => rfl
    | true =>
      unfold escapeAlways? at h
      rw [hcontrol, if_pos rfl] at h
      repeat' split at h
      all_goals cases h
  have hbackslash : c ≠ '\\' := by
    rintro rfl
    cases h
  have hreturn : c ≠ '\r' := by
    rintro rfl
    cases h
  refine ⟨?_, hbackslash, hreturn⟩
  rw [isPlain, isCommentChar_of_isControl hcontrol hfeed]
  simp [hquote, hbackslash]

section Quoted

variable {c d : Char} {code rest more after : List Char}

theorem quotedRest_plain (hplain : isPlain c = true) (hquote : c ≠ '"') (hbackslash : c ≠ '\\')
    (h : quotedRest rest = .ok (more, after)) : quotedRest (c :: rest) = .ok (c :: more, after) := by
  rw [quotedRest.eq_3 c rest hquote hbackslash, if_pos hplain, h]
  rfl

theorem quotedRest_escaped (hescaped : ∀ rest, escaped (d :: code ++ rest) = .ok (c, rest))
    (h : quotedRest rest = .ok (more, after)) :
    quotedRest ('\\' :: d :: code ++ rest) = .ok (c :: more, after) := by
  have hle : rest.length ≤ (d :: code ++ rest).length := by simp; omega
  show quotedRest ('\\' :: (d :: code ++ rest)) = _
  rw [quotedRest, hescaped]
  dsimp only
  rw [if_pos hle, h]
  rfl

theorem quotedLinesRest_plain (hplain : c = '\n' ∨ isPlain c = true) (hquote : c ≠ '"')
    (hbackslash : c ≠ '\\') (hreturn : c ≠ '\r') (h : quotedLinesRest rest = .ok (more, after)) :
    quotedLinesRest (c :: rest) = .ok (c :: more, after) := by
  rw [quotedLinesRest.eq_8 c rest (by simp [hquote]) (by simp [hquote]) (by simp [hquote])
    (by simp [hquote]) (by simp [hquote]) hbackslash (by simp [hreturn]), if_pos, h]
  · rfl
  · rcases hplain with rfl | hplain
    · rfl
    · simp [hplain]

theorem quotedLinesRest_escaped (hsolid : isSolid d = true)
    (hescaped : ∀ rest, escaped (d :: code ++ rest) = .ok (c, rest))
    (h : quotedLinesRest rest = .ok (more, after)) :
    quotedLinesRest ('\\' :: d :: code ++ rest) = .ok (c :: more, after) := by
  have hle : rest.length ≤ (d :: code ++ rest).length := by simp; omega
  show quotedLinesRest ('\\' :: (d :: code ++ rest)) = _
  rw [quotedLinesRest, List.cons_append, afterJoinedLine?_of_isSolid hsolid, ← List.cons_append,
    hescaped]
  dsimp only
  rw [if_pos hle, h]
  rfl

/-- A quote with fewer than two others behind it stands for itself, if they do not end the text. -/
theorem quotedLinesRest_quote (hend : rest ≠ [] ∧ rest ≠ ['"'])
    (htwo : ∀ after, rest ≠ '"' :: '"' :: after) (h : quotedLinesRest rest = .ok (more, after)) :
    quotedLinesRest ('"' :: rest) = .ok ('"' :: more, after) := by
  rw [quotedLinesRest.eq_8 '"' rest (fun _ _ => htwo _) (fun _ _ => htwo _) (fun _ _ => htwo _)
    (fun _ => hend.2) (fun _ => hend.1) (by decide) (by simp), if_pos (by decide), h]
  rfl

end Quoted

/-- What is written for a character begins with it or with a backslash. -/
theorem exists_escape_cons (limit : Nat) (lines : Bool) (run : Nat) (c : Char) (cs : List Char) :
    ∃ d more, escape limit lines run (c :: cs) = d :: more ∧
      (d = '\\' ∨ d = c ∧ c ≠ '\r' ∧ (c = '"' → run < limit)) := by
  rw [escape]
  split
  · next hquote =>
    split
    · next hrun => exact ⟨_, _, rfl, .inr ⟨hquote.symm, by simp [hquote], fun _ => hrun⟩⟩
    · exact ⟨_, _, rfl, .inl rfl⟩
  split
  · next hfeed =>
    split
    · exact ⟨_, _, rfl, .inr ⟨hfeed.symm, by simp [hfeed], by simp [hfeed]⟩⟩
    · exact ⟨_, _, rfl, .inl rfl⟩
  · next hquote hfeed =>
    cases hwritten : escapeAlways? c with
    | none =>
      obtain ⟨-, -, hreturn⟩ := isPlain_of_escapeAlways? hwritten hquote hfeed
      exact ⟨_, _, rfl, .inr ⟨rfl, hreturn, fun h => absurd h hquote⟩⟩
    | some written =>
      obtain ⟨d, code, rfl, -⟩ := escaped_of_escapeAlways? hwritten
      exact ⟨_, _, rfl, .inl rfl⟩

/-- **A text between quotes reads back.** -/
theorem quotedRest_escape (cs rest : List Char) :
    quotedRest (escape 0 false 0 cs ++ '"' :: rest) = .ok (cs, rest) := by
  induction cs with
  | nil => rw [escape, List.nil_append, quotedRest]
  | cons c cs ih =>
    rw [escape]
    split
    · next hquote =>
      rw [hquote, if_neg (by decide), List.cons_append, List.cons_append]
      exact @quotedRest_escaped '"' '"' [] _ _ _ (fun _ => rfl) ih
    split
    · next hfeed =>
      rw [hfeed, if_neg (by decide), List.cons_append, List.cons_append]
      exact @quotedRest_escaped '\n' 'n' [] _ _ _ (fun _ => rfl) ih
    · next hquote hfeed =>
      cases hwritten : escapeAlways? c with
      | none =>
        obtain ⟨hplain, hbackslash, -⟩ := isPlain_of_escapeAlways? hwritten hquote hfeed
        exact quotedRest_plain hplain hquote hbackslash ih
      | some written =>
        obtain ⟨d, code, rfl, -, hescaped⟩ := escaped_of_escapeAlways? hwritten
        dsimp only
        rw [List.append_assoc]
        exact quotedRest_escaped hescaped ih

/-- **A text of several lines between quotes reads back.** -/
theorem quotedLinesRest_escape {rest : List Char} (hrest : rest.head? ≠ some '"') :
    ∀ (cs : List Char) (run : Nat),
      quotedLinesRest (escape 2 true run cs ++ '"' :: '"' :: '"' :: rest) = .ok (cs, rest)
  | [], _ => by
    rw [escape, List.nil_append, quotedLinesRest.eq_3 rest]
    · rintro after rfl
      simp at hrest
    · rintro after rfl
      simp at hrest
  | c :: cs, run => by
    have ih := quotedLinesRest_escape hrest cs
    rw [escape]
    split
    · next hquote =>
      subst hquote
      split
      · next hrun =>
        cases cs with
        | nil =>
          -- one quote in front of those that end the text
          rw [escape, List.singleton_append, quotedLinesRest.eq_2 rest]
          rintro after rfl
          simp at hrest
        | cons c cs =>
          have hnext := ih (run + 1)
          obtain ⟨d, more, hmore, hd⟩ := exists_escape_cons 2 true (run + 1) c cs
          rw [hmore] at hnext ⊢
          by_cases hsecond : d = '"'
          · -- two quotes: what follows them is no third one, unless they are the last
            subst hsecond
            obtain ⟨rfl, -, hlt⟩ : '"' = c ∧ c ≠ '\r' ∧ (c = '"' → run + 1 < 2) :=
              hd.resolve_left (by decide)
            rw [escape, if_pos rfl, if_pos (hlt rfl), List.cons.injEq] at hmore
            rw [← hmore.2] at hnext ⊢
            cases cs with
            | nil =>
              rw [escape, List.cons_append, List.singleton_append, quotedLinesRest.eq_1]
            | cons c cs =>
              obtain ⟨d, more, hmore, hd⟩ := exists_escape_cons 2 true (run + 1 + 1) c cs
              have hthird : d ≠ '"' := by
                rcases hd with rfl | ⟨rfl, -, hlt⟩
                · decide
                · exact fun heq => absurd (hlt heq) (by omega)
              rw [hmore] at hnext ⊢
              exact quotedLinesRest_quote (by simp) (by simp [hthird]) hnext
          · exact quotedLinesRest_quote (by simp [hsecond]) (by simp [hsecond]) hnext
      · rw [List.cons_append, List.cons_append]
        exact @quotedLinesRest_escaped '"' '"' [] _ _ _ (by decide) (fun _ => rfl) (ih 0)
    split
    · next hfeed =>
      rw [hfeed, if_pos rfl]
      exact quotedLinesRest_plain (.inl rfl) (by decide) (by decide) (by decide) (ih 0)
    · next hquote hfeed =>
      cases hwritten : escapeAlways? c with
      | none =>
        obtain ⟨hplain, hbackslash, hreturn⟩ := isPlain_of_escapeAlways? hwritten hquote hfeed
        exact quotedLinesRest_plain (.inr hplain) hquote hbackslash hreturn (ih 0)
      | some written =>
        obtain ⟨d, code, rfl, hsolid, hescaped⟩ := escaped_of_escapeAlways? hwritten
        dsimp only
        rw [List.append_assoc]
        exact quotedLinesRest_escaped hsolid hescaped (ih 0)

/-! ## Between apostrophes -/

theorem le_longestRun (c : Char) : ∀ (run : Nat) (cs : List Char), run ≤ longestRun c run cs
  | _, [] => Nat.le_refl _
  | run, d :: cs => by
    rw [longestRun]
    split
    · exact Nat.le_trans (Nat.le_succ run) (le_longestRun c (run + 1) cs)
    · exact Nat.le_max_left _ _

theorem not_mem_of_longestRun {c : Char} : ∀ {cs : List Char}, longestRun c 0 cs = 0 → c ∉ cs
  | [], _ => List.not_mem_nil
  | d :: cs, h => by
    rw [longestRun] at h
    split at h
    · have hle := le_longestRun c (0 + 1) cs
      omega
    · next hne =>
      rw [List.mem_cons, not_or]
      exact ⟨Ne.symm hne, not_mem_of_longestRun (by omega)⟩

theorem isLiteral_of_isControl {c : Char} (h : isControl c = false) (hfeed : c ≠ '\n')
    (hapostrophe : c ≠ '\'') : isLiteral c = true := by
  rw [isLiteral, isCommentChar_of_isControl h hfeed]
  simp [hapostrophe]

/-- **A text between apostrophes reads back.** -/
theorem literalRest_append {cs : List Char} (h : ∀ c ∈ cs, isLiteral c = true) (rest : List Char) :
    literalRest (cs ++ '\'' :: rest) = .ok (cs, rest) := by
  have hend : isLiteral '\'' = false := by decide
  unfold literalRest
  rw [List.takeWhile_append_of_pos h, List.dropWhile_append_of_pos h]
  simp [hend]

section Literal

variable {c : Char} {rest more after : List Char}

theorem goesOnLiteral_cons (hcontrol : isControl c = false) (hapostrophe : c ≠ '\'') :
    goesOnLiteral (c :: rest) = true := by
  unfold goesOnLiteral
  split
  · rfl
  · next heq =>
    obtain ⟨rfl, rfl⟩ := List.cons.inj heq
    by_cases hfeed : c = '\n'
    · simp [hfeed]
    · simp [isLiteral_of_isControl hcontrol hfeed hapostrophe]
  · next heq => cases heq

theorem literalLinesRest_cons (hcontrol : isControl c = false) (hapostrophe : c ≠ '\'')
    (h : literalLinesRest rest = .ok (more, after)) :
    literalLinesRest (c :: rest) = .ok (c :: more, after) := by
  have hreturn : c ≠ '\r' := by
    rintro rfl
    cases hcontrol
  rw [literalLinesRest.eq_6 c rest (by simp [hapostrophe]) (by simp [hapostrophe])
    (by simp [hapostrophe]) (by simp [hapostrophe]) (by simp [hreturn]), if_pos, h]
  · rfl
  · by_cases hfeed : c = '\n'
    · simp [hfeed]
    · simp [isLiteral_of_isControl hcontrol hfeed hapostrophe]

/-- One apostrophe, or two, stand for themselves if something else is behind them. -/
theorem literalLinesRest_one (hcontrol : isControl c = false) (hapostrophe : c ≠ '\'')
    (h : literalLinesRest (c :: rest) = .ok (more, after)) :
    literalLinesRest ('\'' :: c :: rest) = .ok ('\'' :: more, after) := by
  rw [literalLinesRest.eq_6 '\'' (c :: rest) (by simp [hapostrophe]) (by simp [hapostrophe])
    (by simp [hapostrophe]) (by simp [hapostrophe]) (by simp),
    if_pos (by simp [goesOnLiteral_cons hcontrol hapostrophe]), h]
  rfl

theorem literalLinesRest_two (hcontrol : isControl c = false) (hapostrophe : c ≠ '\'')
    (h : literalLinesRest (c :: rest) = .ok (more, after)) :
    literalLinesRest ('\'' :: '\'' :: c :: rest) = .ok ('\'' :: '\'' :: more, after) := by
  rw [literalLinesRest.eq_4 (c :: rest) (by simp [hapostrophe]) (by simp [hapostrophe])
    (by simp [hapostrophe]), if_pos (goesOnLiteral_cons hcontrol hapostrophe), h]
  rfl

end Literal

/-- **A text of several lines between apostrophes reads back**, with at most two of them in a row. -/
theorem literalLinesRest_append {rest : List Char} (hrest : rest.head? ≠ some '\'') :
    ∀ cs : List Char, (∀ c ∈ cs, isControl c = false) → longestRun '\'' 0 cs ≤ 2 →
      literalLinesRest (cs ++ '\'' :: '\'' :: '\'' :: rest) = .ok (cs, rest)
  | [], _, _ => by
    rw [List.nil_append, literalLinesRest.eq_3 rest]
    · rintro after rfl
      simp at hrest
    · rintro after rfl
      simp at hrest
  | c :: cs, hcontrol, hrun => by
    obtain ⟨hc, hcs⟩ := List.forall_mem_cons.mp hcontrol
    rw [longestRun] at hrun
    by_cases hfirst : c = '\''
    · subst hfirst
      rw [if_pos rfl] at hrun
      cases cs with
      | nil =>
        rw [List.singleton_append, literalLinesRest.eq_2 rest]
        rintro after rfl
        simp at hrest
      | cons d cs =>
        obtain ⟨hd, htail⟩ := List.forall_mem_cons.mp hcs
        rw [longestRun] at hrun
        by_cases hsecond : d = '\''
        · subst hsecond
          rw [if_pos rfl] at hrun
          cases cs with
          | nil => rw [List.cons_append, List.singleton_append, literalLinesRest.eq_1]
          | cons e cs =>
            obtain ⟨he, -⟩ := List.forall_mem_cons.mp htail
            rw [longestRun] at hrun
            have hthird : e ≠ '\'' := by
              rintro rfl
              rw [if_pos rfl] at hrun
              have hle := le_longestRun '\'' (0 + 1 + 1 + 1) cs
              omega
            rw [if_neg hthird] at hrun
            refine literalLinesRest_two he hthird (literalLinesRest_append hrest (e :: cs) htail ?_)
            rw [longestRun, if_neg hthird]
            omega
        · rw [if_neg hsecond] at hrun
          refine literalLinesRest_one hd hsecond (literalLinesRest_append hrest (d :: cs) hcs ?_)
          rw [longestRun, if_neg hsecond]
          omega
    · rw [if_neg hfirst] at hrun
      exact literalLinesRest_cons hc hfirst (literalLinesRest_append hrest cs hcs (by omega))

/-! ## Any text -/

/-- The line end behind the opening quotes of a text of several lines does not count. -/
theorem skipLineEnd_start {cs written : List Char}
    (h : '\n' ∉ cs → ∀ c ∈ written.head?, c ≠ '\n' ∧ c ≠ '\r') :
    skipLineEnd ((if cs.contains '\n' then ['\n'] else []) ++ written) = written := by
  by_cases hfeed : '\n' ∈ cs
  · rw [if_pos (by simpa using hfeed)]
    rfl
  · rw [if_neg (by simpa using hfeed), List.nil_append]
    have hhead := h hfeed
    unfold skipLineEnd afterLineEnd?
    split
    · exact absurd rfl (hhead _ rfl).1
    · exact absurd rfl (hhead _ rfl).2
    · rfl

/-- No quotes stand at the beginning of a text. -/
def NoQuote (rest : List Char) : Prop :=
  rest.head? ≠ some '"' ∧ rest.head? ≠ some '\''

theorem ite_lines_ne {lines : Bool} {s : Style} (hquoted : s ≠ .quoted) (hlines : s ≠ .quotedLines) :
    (if lines then Style.quotedLines else .quoted) ≠ s := by
  cases lines
  · exact hquoted.symm
  · exact hlines.symm

theorem literal_of_style {cs : List Char} (h : style cs = .literal) :
    cs ≠ [] ∧ ∀ c ∈ cs, isLiteral c = true := by
  have hne : cs ≠ [] := by
    rintro rfl
    cases h
  refine ⟨hne, fun c hc => ?_⟩
  unfold style at h
  dsimp only at h
  split at h
  · exact absurd h (ite_lines_ne (by decide) (by decide))
  next hcontrol =>
  split at h
  · cases h
  split at h
  · next hliteral =>
    simp only [Bool.and_eq_true, decide_eq_true_eq, Bool.not_eq_true', List.contains_eq_mem,
      decide_eq_false_iff_not] at hliteral
    simp only [List.any_eq_true, not_exists, not_and, Bool.not_eq_true] at hcontrol
    refine isLiteral_of_isControl (hcontrol c hc) ?_ ?_
    · rintro rfl
      exact hliteral.2 hc
    · rintro rfl
      exact not_mem_of_longestRun hliteral.1 hc
  split at h
  · cases h
  split at h
  · cases h
  · exact absurd h (ite_lines_ne (by decide) (by decide))

theorem literalLines_of_style {cs : List Char} (h : style cs = .literalLines) :
    (∀ c ∈ cs, isControl c = false) ∧ longestRun '\'' 0 cs ≤ 2 := by
  unfold style at h
  dsimp only at h
  split at h
  · exact absurd h (ite_lines_ne (by decide) (by decide))
  next hcontrol =>
  simp only [List.any_eq_true, not_exists, not_and, Bool.not_eq_true] at hcontrol
  split at h
  · cases h
  split at h
  · cases h
  split at h
  · cases h
  split at h
  · next hfew => exact ⟨hcontrol, hfew⟩
  · exact absurd h (ite_lines_ne (by decide) (by decide))

/-- A text of one line is no text of several lines: it does not begin with two quotes more. -/
theorem text_eq_oneLine {c d : Char} {cs : List Char} (h : d ≠ c ∨ cs.head? ≠ some c) :
    text (c :: d :: cs) = oneLine (c :: d :: cs) := by
  unfold text
  split
  · next heq =>
    cases heq
    simp at h
  · next heq =>
    cases heq
    simp at h
  · rfl

/-- **A written text reads back**, whatever comes behind it but quotes. -/
theorem text_writeChars (cs : List Char) {rest : List Char} (hrest : NoQuote rest) :
    text (writeChars cs ++ rest) = .ok (cs, rest) := by
  unfold writeChars
  cases hstyle : style cs with
  | quoted =>
    have hread : oneLine ('"' :: escape 0 false 0 cs ++ '"' :: rest) = .ok (cs, rest) :=
      quotedRest_escape cs rest
    dsimp only
    rw [List.append_assoc, List.singleton_append, ← hread]
    cases cs with
    | nil => exact text_eq_oneLine (.inr hrest.1)
    | cons c cs =>
      obtain ⟨d, more, hmore, hd⟩ := exists_escape_cons 0 false 0 c cs
      rw [hmore]
      refine text_eq_oneLine (.inl ?_)
      rcases hd with rfl | ⟨rfl, -, hlt⟩
      · decide
      · exact fun heq => absurd (hlt heq) (by omega)
  | literal =>
    obtain ⟨hne, hliteral⟩ := literal_of_style hstyle
    have hread : oneLine ('\'' :: cs ++ '\'' :: rest) = .ok (cs, rest) :=
      literalRest_append hliteral rest
    dsimp only
    rw [List.append_assoc, List.singleton_append, ← hread]
    obtain ⟨c, cs, rfl⟩ := List.exists_cons_of_ne_nil hne
    refine text_eq_oneLine (.inl ?_)
    rintro rfl
    exact absurd (hliteral _ List.mem_cons_self) (by decide)
  | quotedLines =>
    have hread := quotedLinesRest_escape hrest.1 cs 0
    dsimp only
    simp only [List.append_assoc, List.cons_append, List.nil_append]
    rw [text, skipLineEnd_start, hread]
    intro hfeed c hc
    cases cs with
    | nil =>
      obtain rfl := Option.some.inj hc
      decide
    | cons d cs =>
      obtain ⟨e, more, hmore, he⟩ := exists_escape_cons 2 true 0 d cs
      rw [hmore] at hc
      obtain rfl := Option.some.inj hc
      rcases he with rfl | ⟨rfl, hreturn, -⟩
      · decide
      · exact ⟨fun heq => hfeed (heq ▸ List.mem_cons_self), hreturn⟩
  | literalLines =>
    obtain ⟨hcontrol, hfew⟩ := literalLines_of_style hstyle
    have hread := literalLinesRest_append hrest.2 cs hcontrol hfew
    dsimp only
    simp only [List.append_assoc, List.cons_append, List.nil_append]
    rw [text, skipLineEnd_start, hread]
    intro hfeed c hc
    cases cs with
    | nil =>
      obtain rfl := Option.some.inj hc
      decide
    | cons d cs =>
      obtain rfl := Option.some.inj hc
      refine ⟨fun heq => hfeed (heq ▸ List.mem_cons_self), ?_⟩
      rintro rfl
      exact absurd (hcontrol _ List.mem_cons_self) (by decide)

end AttributeRegistry.Toml
