import AttributeRegistry.Text.Unprintable

/-!
# Quoted text

Two written forms of a text.

* `quoted` is the form messages use: double quotes around it, the six characters with a short
  escape written by it, and every unprintable character by its number in braces.
* `literal` is the form of a string in an example: double quotes around it, five short escapes, and
  every control character by its number in at least four digits.

Main statement: a literal holds no control character (`not_isControl_of_mem_literal`), so it never
breaks a line.
-/

namespace AttributeRegistry.Text

/-- A number in lower-case hexadecimal digits. -/
def hexDigits (n : Nat) : List Char :=
  Nat.toDigits 16 n

/-- Zeros before a text that is too short. -/
def padZeros (width : Nat) (cs : List Char) : List Char :=
  List.replicate (width - cs.length) '0' ++ cs

/-- The control characters: the code points below space, and those from delete to `U+009F`. -/
def isControl (c : Char) : Bool :=
  c.toNat < 0x20 || (0x7F ≤ c.toNat && c.toNat ≤ 0x9F)

/-- A character written by its number: `\u`, and the digits in braces. -/
def numbered (digits : List Char) : List Char :=
  ['\\', 'u', '\x7b'] ++ digits ++ ['\x7d']

/-! ## In messages -/

/-- One character of a quoted text; `quote` is the quotation mark in use. -/
def quotedChar (quote c : Char) : List Char :=
  if c = '\x00' then ['\\', '0']
  else if c = '\t' then ['\\', 't']
  else if c = '\r' then ['\\', 'r']
  else if c = '\n' then ['\\', 'n']
  else if c = '\\' then ['\\', '\\']
  else if c = quote then ['\\', c]
  else if isUnprintable c then numbered (hexDigits c.toNat)
  else [c]

/-- A text in double quotes, as messages show it. -/
def quoted (s : String) : String :=
  String.ofList (['"'] ++ s.toList.flatMap (quotedChar '"') ++ ['"'])

/-- A character in single quotes, as messages show it. -/
def quotedSingle (c : Char) : String :=
  String.ofList (['\''] ++ quotedChar '\'' c ++ ['\''])

/-! ## In examples -/

/-- One character of a literal. -/
def literalChar (c : Char) : List Char :=
  if c = '"' then ['\\', '"']
  else if c = '\\' then ['\\', '\\']
  else if c = '\n' then ['\\', 'n']
  else if c = '\r' then ['\\', 'r']
  else if c = '\t' then ['\\', 't']
  else if isControl c then numbered (padZeros 4 (hexDigits c.toNat))
  else [c]

/-- A text as a literal: in double quotes, on one line. -/
def literal (cs : List Char) : List Char :=
  ['"'] ++ cs.flatMap literalChar ++ ['"']

/-- The hexadecimal digits of a control character are none themselves. -/
theorem not_isControl_numbered (n : Nat) (h : n < 0xA0) :
    ∀ d ∈ numbered (padZeros 4 (hexDigits n)), isControl d = false := by
  have all : ∀ m ∈ List.range 0xA0,
      (numbered (padZeros 4 (hexDigits m))).all (fun d => !isControl d) = true := by
    decide +kernel
  intro d hd
  simpa using List.all_eq_true.1 (all n (List.mem_range.2 h)) d hd

theorem not_isControl_of_mem_two {a b d : Char} (ha : isControl a = false)
    (hb : isControl b = false) (h : d ∈ [a, b]) : isControl d = false := by
  simp only [List.mem_cons, List.not_mem_nil, or_false] at h
  rcases h with rfl | rfl <;> assumption

theorem not_isControl_of_mem_literalChar {c d : Char} (h : d ∈ literalChar c) :
    isControl d = false := by
  unfold literalChar at h
  repeat' split at h
  all_goals first
    | exact not_isControl_of_mem_two (by decide) (by decide) h
    | skip
  · next hc =>
    have : c.toNat < 0xA0 := by
      simp only [isControl, Bool.or_eq_true, Bool.and_eq_true, decide_eq_true_eq] at hc
      omega
    exact not_isControl_numbered _ this d h
  · next hc =>
    rw [List.mem_singleton.1 h]
    simpa using hc

/-- A literal stays on one line: it holds no control character. -/
theorem not_isControl_of_mem_literal {cs : List Char} {d : Char} (h : d ∈ literal cs) :
    isControl d = false := by
  simp only [literal, List.mem_append, List.mem_singleton, List.mem_flatMap] at h
  rcases h with (rfl | ⟨c, _, hd⟩) | rfl
  · decide
  · exact not_isControl_of_mem_literalChar hd
  · decide

end AttributeRegistry.Text
