import StaticScript.Target.Literal
import StaticScript.Proofs.Target.Lexing

/-!
# How string literals are read

A literal is read from its opening quote up to the first quote that is not escaped
(`readQuoted?`).  Behind a backslash stands a sign for one character, or the number of a character
in octal: as many octal digits as there are, but three at most (`readEscape?`).

The literal of a text is read back as this text, whatever follows it (`readQuoted?_escapeChars`).
This comes from what is written for one character (`spelling`), of which there are three kinds
(`spelling_cases`).  It is read back as the character whatever follows it, since a number has always
three digits, and of the characters before it only a question mark has a bearing on it.
-/

namespace StaticScript.Target

/-! ### Reading -/

/-- The value of an octal digit. -/
def octalDigit? (c : Char) : Option Nat :=
  if '0' ≤ c ∧ c ≤ '7' then some (c.toNat - '0'.toNat) else none

/-- Reads octal digits, as many as there are but `n` at most, and appends them to a number. -/
def readOctal : Nat → Nat → List Char → Nat × List Char
  | n + 1, value, c :: cs =>
    match octalDigit? c with
    | some d => readOctal n (8 * value + d) cs
    | none => (value, c :: cs)
  | _, value, cs => (value, cs)

/-- The character that a sign behind a backslash stands for. -/
def unescape? : Char → Option Char
  | '\\' => some '\\'
  | '"' => some '"'
  | '?' => some '?'
  | 'n' => some '\n'
  | 't' => some '\t'
  | 'r' => some '\r'
  | _ => none

/-- Reads what stands behind a backslash.  A number beyond ASCII is that of a byte and not of a
character. -/
def readEscape? : List Char → Option (Char × List Char)
  | [] => none
  | c :: cs =>
    match unescape? c, octalDigit? c with
    | some d, _ => some (d, cs)
    | none, some d =>
      if (readOctal 2 d cs).1 < 0x80 then
        some (Char.ofNat (readOctal 2 d cs).1, (readOctal 2 d cs).2)
      else none
    | none, none => none

theorem length_readOctal (n value : Nat) (cs : List Char) :
    (readOctal n value cs).2.length ≤ cs.length := by
  induction n generalizing value cs with
  | zero => exact Nat.le_refl _
  | succ n ih =>
    cases cs with
    | nil => exact Nat.le_refl _
    | cons c cs =>
      rw [readOctal]
      split
      · exact (ih _ _).trans (Nat.le_succ _)
      · exact Nat.le_refl _

theorem length_of_readEscape? {cs rest : List Char} {d : Char}
    (h : readEscape? cs = some (d, rest)) : rest.length < cs.length := by
  cases cs with
  | nil => cases h
  | cons c cs =>
    rw [readEscape?] at h
    rw [List.length_cons, Nat.lt_succ_iff]
    split at h
    · obtain ⟨-, rfl⟩ := Prod.mk.inj (Option.some.inj h)
      exact Nat.le_refl _
    · split at h
      · obtain ⟨-, rfl⟩ := Prod.mk.inj (Option.some.inj h)
        exact length_readOctal _ _ _
      · cases h
    · cases h

/-- Reads a literal behind its opening quote: the text that it stands for, and what follows its
closing quote. -/
def readQuoted? : List Char → Option (List Char × List Char)
  | [] => none
  | c :: cs =>
    if c = '"' then some ([], cs)
    else if c = '\\' then
      match _h : readEscape? cs with
      | some (d, rest) => (readQuoted? rest).map (Prod.map (d :: ·) id)
      | none => none
    else (readQuoted? cs).map (Prod.map (c :: ·) id)
termination_by cs => cs.length
decreasing_by
  · have := length_of_readEscape? _h
    simp only [List.length_cons]
    omega
  · simp

/-- The text that a literal stands for, if the characters are one literal. -/
def ofLiteral? : List Char → Option (List Char)
  | '"' :: cs =>
    match readQuoted? cs with
    | some (s, []) => some s
    | _ => none
  | _ => none

theorem readQuoted?_quote (rest : List Char) : readQuoted? ('"' :: rest) = some ([], rest) := by
  rw [readQuoted?, if_pos rfl]

theorem readQuoted?_escape {cs rest : List Char} {d : Char}
    (h : readEscape? cs = some (d, rest)) :
    readQuoted? ('\\' :: cs) = (readQuoted? rest).map (Prod.map (d :: ·) id) := by
  rw [readQuoted?, if_neg (by decide), if_pos rfl]
  split
  · rename_i heq
    rw [h] at heq
    obtain ⟨rfl, rfl⟩ := Prod.mk.inj (Option.some.inj heq)
    rfl
  · rename_i heq
    rw [h] at heq
    cases heq

theorem readQuoted?_char {c : Char} (hquote : c ≠ '"') (hslash : c ≠ '\\') (rest : List Char) :
    readQuoted? (c :: rest) = (readQuoted? rest).map (Prod.map (c :: ·) id) := by
  rw [readQuoted?, if_neg hquote, if_neg hslash]

/-! ### Octal numbers -/

theorem octalDigit?_digitChar : ∀ n < 8, octalDigit? (Nat.digitChar n) = some n := by decide

theorem unescape?_digitChar : ∀ n < 8, unescape? (Nat.digitChar n) = none := by decide

/-- **A number is read back from its three digits**, whatever follows them. -/
theorem readEscape?_octal {n : Nat} (h : n < 0x80) (rest : List Char) :
    readEscape? (octal n ++ rest) = some (Char.ofNat n, rest) := by
  have hdigit : ∀ k, octalDigit? (Nat.digitChar (k % 8)) = some (k % 8) := fun k =>
    octalDigit?_digitChar _ (Nat.mod_lt _ (by decide))
  have hsign : unescape? (Nat.digitChar (n / 64 % 8)) = none :=
    unescape?_digitChar _ (Nat.mod_lt _ (by decide))
  have hvalue : 8 * (8 * (n / 64 % 8) + n / 8 % 8) + n % 8 = n := by omega
  -- With the third digit the number is complete, so a digit in `rest` is left alone.
  have hread : readOctal 2 (n / 64 % 8)
      (Nat.digitChar (n / 8 % 8) :: Nat.digitChar (n % 8) :: rest) = (n, rest) := by
    simp only [readOctal, hdigit, hvalue]
  simp only [octal, List.cons_append, List.nil_append, readEscape?, hsign, hdigit, hread, if_pos h]

/-! ### What is written for one character -/

/-- The characters without a glyph among those of ASCII. -/
def isControl (c : Char) : Bool := decide (c.toNat < 0x20 ∨ c.toNat = 0x7F)

theorem isControl_iff {c : Char} : isControl c = true ↔ c.toNat < 0x20 ∨ c.toNat = 0x7F :=
  decide_eq_true_iff

/-- What is written for a character; `mark` says that a question mark was written last. -/
def spelling (mark : Bool) (c : Char) : List Char :=
  if c = '"' then ['\\', '"']
  else if c = '\\' then ['\\', '\\']
  else if c = '\n' then ['\\', 'n']
  else if c = '\t' then ['\\', 't']
  else if c = '\r' then ['\\', 'r']
  else if isControl c then '\\' :: octal c.toNat
  else if c = '?' ∧ mark then ['\\', '?']
  else [c]

/-- A literal is made character by character. -/
theorem escapeChars_cons (mark : Bool) (c : Char) (cs : List Char) :
    escapeChars mark (c :: cs) = spelling mark c ++ escapeChars (c == '?') cs := by
  by_cases hquote : c = '"'
  · subst hquote; rfl
  by_cases hslash : c = '\\'
  · subst hslash; rfl
  by_cases hfeed : c = '\n'
  · subst hfeed; rfl
  by_cases htab : c = '\t'
  · subst htab; rfl
  by_cases hreturn : c = '\r'
  · subst hreturn; rfl
  by_cases hmark : c = '?'
  · subst hmark; cases mark <;> rfl
  -- What is left is written by its number or as it stands.
  simp only [escapeChars, spelling, isControl_iff, hquote, hslash, hfeed, htab, hreturn, hmark,
    false_and, if_false, beq_false_of_ne hmark]
  split <;> rfl

/-- **There are three ways to write a character**: by a sign, by its number, or as it stands. -/
theorem spelling_cases (mark : Bool) (c : Char) :
    (∃ sign, spelling mark c = ['\\', sign] ∧ unescape? sign = some c) ∨
      (spelling mark c = '\\' :: octal c.toNat ∧ isControl c = true) ∨
      (spelling mark c = [c] ∧ c ≠ '"' ∧ c ≠ '\\' ∧ isControl c = false ∧
        (c = '?' → mark = false)) := by
  unfold spelling
  split_ifs with hquote hslash hfeed htab hreturn hcontrol hmark
  · exact .inl ⟨'"', rfl, by rw [hquote]; rfl⟩
  · exact .inl ⟨'\\', rfl, by rw [hslash]; rfl⟩
  · exact .inl ⟨'n', rfl, by rw [hfeed]; rfl⟩
  · exact .inl ⟨'t', rfl, by rw [htab]; rfl⟩
  · exact .inl ⟨'r', rfl, by rw [hreturn]; rfl⟩
  · exact .inr (.inl ⟨rfl, hcontrol⟩)
  · exact .inl ⟨'?', rfl, by rw [hmark.1]; rfl⟩
  · refine .inr (.inr ⟨rfl, hquote, hslash, Bool.eq_false_iff.2 hcontrol, fun hc => ?_⟩)
    simpa [hc] using hmark

/-- **A character is read back from what is written for it**, whatever follows. -/
theorem readQuoted?_spelling (mark : Bool) (c : Char) (rest : List Char) :
    readQuoted? (spelling mark c ++ rest) = (readQuoted? rest).map (Prod.map (c :: ·) id) := by
  obtain ⟨sign, h, hsign⟩ | ⟨h, hcontrol⟩ | ⟨h, hquote, hslash, -⟩ := spelling_cases mark c
  · have hread : readEscape? (sign :: rest) = some (c, rest) := by
      simp only [readEscape?, hsign]
    rw [h]
    exact readQuoted?_escape hread
  · have hascii : c.toNat < 0x80 := by
      rw [isControl_iff] at hcontrol
      omega
    rw [h, List.cons_append, readQuoted?_escape (readEscape?_octal hascii rest),
      Char.ofNat_toNat]
  · rw [h]
    exact readQuoted?_char hquote hslash rest

/-- A character that stands for itself in a literal, wherever it is. -/
structure Plain (c : Char) : Prop where
  quote : c ≠ '"'
  slash : c ≠ '\\'
  mark : c ≠ '?'
  control : isControl c = false

/-- **An octal number is three plain characters.** -/
theorem octal_plain (n : Nat) :
    ∃ d₁ d₂ d₃, octal n = [d₁, d₂, d₃] ∧ Plain d₁ ∧ Plain d₂ ∧ Plain d₃ := by
  have hdigit : ∀ k < 8, Nat.digitChar k ≠ '"' ∧ Nat.digitChar k ≠ '\\' ∧ Nat.digitChar k ≠ '?' ∧
      isControl (Nat.digitChar k) = false := by decide
  have hplain : ∀ k, Plain (Nat.digitChar (k % 8)) := by
    intro k
    obtain ⟨hquote, hslash, hmark, hcontrol⟩ := hdigit (k % 8) (Nat.mod_lt _ (by decide))
    exact ⟨hquote, hslash, hmark, hcontrol⟩
  exact ⟨_, _, _, rfl, hplain _, hplain _, hplain _⟩

/-! ### Literals -/

/-- **A text is read back from its literal**, whatever follows the literal. -/
theorem readQuoted?_escapeChars (mark : Bool) (cs rest : List Char) :
    readQuoted? (escapeChars mark cs ++ '"' :: rest) = some (cs, rest) := by
  induction cs generalizing mark with
  | nil => exact readQuoted?_quote rest
  | cons c cs ih =>
    rw [escapeChars_cons, List.append_assoc, readQuoted?_spelling, ih]
    rfl

/-- There is a double quote that no backslash escapes; `escaped` says that the first character is
escaped. -/
def hasBareQuote (escaped : Bool) : List Char → Bool
  | [] => false
  | c :: cs => !escaped && c == '"' || hasBareQuote (!escaped && c == '\\') cs

theorem hasBareQuote_cons {c : Char} (hquote : c ≠ '"') (hslash : c ≠ '\\') (cs : List Char) :
    hasBareQuote false (c :: cs) = hasBareQuote false cs := by
  rw [hasBareQuote, beq_false_of_ne hquote, beq_false_of_ne hslash]
  rfl

theorem hasBareQuote_spelling (mark : Bool) (c : Char) (rest : List Char) :
    hasBareQuote false (spelling mark c ++ rest) = hasBareQuote false rest := by
  obtain ⟨sign, h, -⟩ | ⟨h, -⟩ | ⟨h, hquote, hslash, -⟩ := spelling_cases mark c
  · rw [h]
    rfl
  · obtain ⟨d₁, d₂, d₃, hoctal, -, h₂, h₃⟩ := octal_plain c.toNat
    rw [h, hoctal]
    calc hasBareQuote false ('\\' :: d₁ :: d₂ :: d₃ :: rest)
        = hasBareQuote false (d₂ :: d₃ :: rest) := rfl
      _ = hasBareQuote false (d₃ :: rest) := hasBareQuote_cons h₂.quote h₂.slash _
      _ = hasBareQuote false rest := hasBareQuote_cons h₃.quote h₃.slash _
  · rw [h]
    exact hasBareQuote_cons hquote hslash rest

/-- The lexer stays in the literal over all that is written for a character. -/
theorem scan_spelling (mark : Bool) (c : Char) :
    scan (.literal '"') (spelling mark c) = (spelling mark c, .literal '"') := by
  obtain ⟨sign, h, -⟩ | ⟨h, -⟩ | ⟨h, hquote, hslash, -⟩ := spelling_cases mark c
  · rw [h]
    rfl
  · obtain ⟨d₁, d₂, d₃, hoctal, -, h₂, h₃⟩ := octal_plain c.toNat
    rw [h, hoctal]
    simp [scan, Mode.read, h₂.quote, h₂.slash, h₃.quote, h₃.slash]
  · rw [h]
    simp [scan, Mode.read, hquote, hslash]

theorem isControl_spelling (mark : Bool) (c : Char) : (spelling mark c).any isControl = false := by
  obtain ⟨sign, h, hsign⟩ | ⟨h, -⟩ | ⟨h, -, -, hcontrol, -⟩ := spelling_cases mark c
  · have hglyph : isControl sign = false := by
      unfold unescape? at hsign
      split at hsign <;> cases hsign <;> rfl
    rw [h, List.any_cons, List.any_cons, hglyph]
    rfl
  · obtain ⟨d₁, d₂, d₃, hoctal, h₁, h₂, h₃⟩ := octal_plain c.toNat
    rw [h, hoctal]
    simp only [List.any_cons, List.any_nil, h₁.control, h₂.control, h₃.control]
    rfl
  · rw [h, List.any_cons, hcontrol]
    rfl

/-- There are two question marks side by side; `mark` says that one stands before the text. -/
def hasDoubleMark (mark : Bool) : List Char → Bool
  | [] => false
  | c :: cs => mark && c == '?' || hasDoubleMark (c == '?') cs

theorem hasDoubleMark_of_infix {mark : Bool} {cs : List Char} (h : ['?', '?'] <:+: cs) :
    hasDoubleMark mark cs = true := by
  induction cs generalizing mark with
  | nil => simp at h
  | cons c cs ih =>
    rw [hasDoubleMark, Bool.or_eq_true]
    rcases List.infix_cons_iff.1 h with hstart | hlater
    · obtain ⟨rest, hrest⟩ := hstart
      obtain ⟨rfl, rfl⟩ := List.cons.inj hrest
      exact .inr rfl
    · exact .inr (ih hlater)

theorem hasDoubleMark_spelling (mark : Bool) (c : Char) (rest : List Char) :
    hasDoubleMark mark (spelling mark c ++ rest) = hasDoubleMark (c == '?') rest := by
  obtain ⟨sign, h, hsign⟩ | ⟨h, hcontrol⟩ | ⟨h, -, -, -, hmark⟩ := spelling_cases mark c
  · -- Of all signs only a question mark stands for a question mark.
    have hsame : (sign == '?') = (c == '?') := by
      unfold unescape? at hsign
      split at hsign <;> cases hsign <;> rfl
    rw [h, ← hsame]
    simp [hasDoubleMark]
  · obtain ⟨d₁, d₂, d₃, hoctal, h₁, h₂, h₃⟩ := octal_plain c.toNat
    have hc : (c == '?') = false := beq_false_of_ne (by rintro rfl; cases hcontrol)
    rw [h, hoctal, hc]
    simp [hasDoubleMark, beq_false_of_ne h₁.mark, beq_false_of_ne h₂.mark,
      beq_false_of_ne h₃.mark]
  · have hfree : (mark && c == '?') = false := by
      rw [Bool.and_eq_false_iff, beq_eq_false_iff_ne]
      by_cases hc : c = '?'
      · exact .inl (hmark hc)
      · exact .inr hc
    rw [h, List.singleton_append, hasDoubleMark, hfree, Bool.false_or]

/-! ### Whole literals -/

section

variable (mark : Bool) (cs : List Char)

theorem hasBareQuote_escapeChars : hasBareQuote false (escapeChars mark cs) = false := by
  induction cs generalizing mark with
  | nil => rfl
  | cons c cs ih => rw [escapeChars_cons, hasBareQuote_spelling, ih]

theorem scan_escapeChars :
    scan (.literal '"') (escapeChars mark cs) = (escapeChars mark cs, .literal '"') := by
  induction cs generalizing mark with
  | nil => rfl
  | cons c cs ih => rw [escapeChars_cons, scan_append, scan_spelling, ih]

theorem isControl_escapeChars : (escapeChars mark cs).any isControl = false := by
  induction cs generalizing mark with
  | nil => rfl
  | cons c cs ih => rw [escapeChars_cons, List.any_append, isControl_spelling, ih]; rfl

theorem hasDoubleMark_escapeChars : hasDoubleMark mark (escapeChars mark cs) = false := by
  induction cs generalizing mark with
  | nil => rfl
  | cons c cs ih => rw [escapeChars_cons, hasDoubleMark_spelling, ih]

end

theorem toList_literal (s : String) :
    (literal s).toList = '"' :: escapeChars false s.toList ++ ['"'] := by
  rw [literal, String.toList_ofList]

/-- **Two literals before any two texts are the same only if the texts in them are.** -/
theorem literal_append_inj {s t : String} {r r' : List Char}
    (h : (literal s).toList ++ r = (literal t).toList ++ r') : s = t ∧ r = r' := by
  have hread : ∀ (s : String) (r : List Char),
      readQuoted? (((literal s).toList ++ r).tail) = some (s.toList, r) := by
    intro s r
    rw [toList_literal, List.append_assoc, List.cons_append, List.tail_cons, List.singleton_append]
    exact readQuoted?_escapeChars false s.toList r
  have heq := (hread s r).symm.trans ((congrArg (readQuoted? ·.tail) h).trans (hread t r'))
  obtain ⟨hs, hr⟩ := Prod.mk.inj (Option.some.inj heq)
  exact ⟨String.toList_injective hs, hr⟩

/-- **String literals are read back.**  The literal of a text is decoded as the text.  Between the
quotes no double quote is bare, no control character stands as it is and no two question marks stand
side by side; so nothing in it begins a trigraph, and the lexer reads the literal whole, and what
follows as code. -/
theorem literal_readsBack (s : String) (rest : List Char) :
    ofLiteral? (literal s).toList = some s.toList ∧
    (∃ body, (literal s).toList = '"' :: body ++ ['"'] ∧ hasBareQuote false body = false ∧
      body.any isControl = false ∧ ¬ ['?', '?'] <:+: body) ∧
    scan .code ((literal s).toList ++ rest) =
      ((literal s).toList ++ (scan .code rest).1, (scan .code rest).2) := by
  have htext := toList_literal s
  refine ⟨?_, ⟨_, htext, hasBareQuote_escapeChars false _, isControl_escapeChars false _, ?_⟩, ?_⟩
  · rw [htext, List.cons_append, ofLiteral?, readQuoted?_escapeChars]
  · intro hinfix
    have hdouble : hasDoubleMark false (escapeChars false s.toList) = true :=
      hasDoubleMark_of_infix hinfix
    rw [hasDoubleMark_escapeChars] at hdouble
    cases hdouble
  · have hscan : scan .code (literal s).toList = ((literal s).toList, .code) := by
      rw [htext, List.cons_append, scan, scan_append]
      rw [show Mode.read .code '"' = (['"'], .literal '"') from rfl, scan_escapeChars]
      rfl
    rw [scan_append, hscan]

-- The digit behind the number of the bell is not read as a digit of it.
example : literal "\x077??" = "\"\\0077?\\?\"" := by decide

end StaticScript.Target
