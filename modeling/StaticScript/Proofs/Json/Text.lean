import Mathlib.Data.List.TakeWhile
import StaticScript.Json.Reader
import StaticScript.Json.Writer
import StaticScript.Proofs.Decimal.Digits
import StaticScript.Proofs.Text.Cutting

/-!
# Reading what was written

`Json.parse?` reads a document from the text that `Json.compact` writes (`parse?_compact`).  The
reader works in two steps, and so does the proof: the text of a document is cut into the tokens of
the document (`cuts_compact`), and the machine takes these tokens as the document (`run?_tokens`).

A string literal is read as its content, whatever it is (`readToken?_writeContent`).  Numbers need
care.  A number goes on as long as there are digits, so what is read of it depends on what stands
behind it, and in a document without blanks that is a comma, a bracket or the end (`Stops`).  An
integer of at most 64 bits is read as written (`Number.readsBack_integer`), but the digits of a
double are read in steps that round, so whether a double is read from its text is to be asked of
each (`Number.ReadsBack`).
-/

namespace StaticScript.Json

/-! ### Strings -/

theorem hexDigit?_digitChar : ∀ n < 16, hexDigit? (Nat.digitChar n) = some n := by decide

theorem hexUnit?_digitChar {high low : Nat} (hhigh : high < 16) (hlow : low < 16) :
    hexUnit? '0' '0' (Nat.digitChar high) (Nat.digitChar low) = some (high * 16 + low) := by
  have hzero : hexDigit? '0' = some 0 := by decide
  simp [hexUnit?, hzero, hexDigit?_digitChar _ hhigh, hexDigit?_digitChar _ hlow]

theorem readPieces?_escape {e c : Char} (he : escape? e = some c) (rest : List Char) :
    readPieces? ('\\' :: e :: rest) =
      (readPieces? rest).map fun r => (.char c :: r.1, r.2) := by
  rw [readPieces?, he]
  · cases readPieces? rest <;> rfl
  · rintro a b c d rest rfl
    cases he

theorem readPieces?_unit {a b c d : Char} {n : Nat} (h : hexUnit? a b c d = some n)
    (rest : List Char) :
    readPieces? ('\\' :: 'u' :: a :: b :: c :: d :: rest) =
      (readPieces? rest).map fun r => (.unit n :: r.1, r.2) := by
  rw [readPieces?, h]
  cases readPieces? rest <;> rfl

theorem readPieces?_char {c : Char} (hlow : ¬ c.toNat < 0x20) (hquote : c ≠ '"')
    (hslash : c ≠ '\\') (rest : List Char) :
    readPieces? (c :: rest) = (readPieces? rest).map fun r => (.char c :: r.1, r.2) := by
  rw [readPieces?, if_neg (not_or.2 ⟨hlow, hslash⟩)]
  · cases readPieces? rest <;> rfl
  · exact fun h => hquote h
  · exact fun _ _ _ _ _ h => absurd h hslash
  · exact fun _ _ h => absurd h hslash

theorem spell?_unit {c : Char} (h : c.toNat < 0x20) (ps : List Piece) :
    spell? (.unit c.toNat :: ps) = (spell? ps).map (c :: ·) := by
  have hhigh : isHighUnit c.toNat = false := by simp [isHighUnit]; omega
  have hlow : isLowUnit c.toNat = false := by simp [isLowUnit]; omega
  rw [spell?.eq_def]
  simp only [hhigh, hlow, Char.ofNat_toNat, Bool.false_eq_true, if_false]

/-- A character is written so that it is read as one piece, which spells it. -/
theorem exists_piece (c : Char) : ∃ p,
    (∀ rest, readPieces? (writeChar c ++ rest) =
      (readPieces? rest).map fun r => (p :: r.1, r.2)) ∧
    ∀ ps, spell? (p :: ps) = (spell? ps).map (c :: ·) := by
  have hchar : ∀ ps, spell? (.char c :: ps) = (spell? ps).map (c :: ·) := fun ps => rfl
  unfold writeChar
  split
  case h_8 hquote hslash _ _ _ _ _ =>
    by_cases hlow : c.toNat < 0x20
    · -- a control character without a letter of its own
      refine ⟨.unit c.toNat, fun rest => ?_, spell?_unit hlow⟩
      have hunit : ∀ high low, high * 16 + low = c.toNat → high < 16 → low < 16 →
          hexUnit? '0' '0' (Nat.digitChar high) (Nat.digitChar low) = some c.toNat := by
        intro high low hc hhigh hlow
        rw [hexUnit?_digitChar hhigh hlow, hc]
      by_cases hfirst : c.toNat < 0x10
      · rw [if_pos hfirst]
        exact readPieces?_unit (hunit 0 c.toNat (by omega) (by omega) hfirst) rest
      · rw [if_neg hfirst, if_pos hlow]
        exact readPieces?_unit (hunit 1 (c.toNat - 0x10) (by omega) (by omega) (by omega)) rest
    · refine ⟨.char c, fun rest => ?_, hchar⟩
      rw [if_neg (by omega), if_neg hlow]
      exact readPieces?_char hlow hquote hslash rest
  all_goals exact ⟨.char _, readPieces?_escape rfl, hchar⟩

theorem toList_writeContent_none :
    (writeContent none).toList = ['"', '\\', 'u', 'd', '8', '0', '0', '"'] := by
  decide +kernel

/-- **A string literal is read as its content.** -/
theorem readToken?_writeContent (content : Content) (rest : List Char) :
    readToken? ((writeContent content).toList ++ rest) =
      some (.scalar (.string content), rest) := by
  cases content with
  | none =>
    have hunit : hexUnit? 'd' '8' '0' '0' = some 0xD800 := by decide
    rw [toList_writeContent_none]
    simp only [List.cons_append, List.nil_append, readToken?, readPieces?_unit hunit, readPieces?]
    rfl
  | some s =>
    have hchars : ∀ cs : List Char, ∃ ps, spell? ps = some cs ∧
        readPieces? (cs.flatMap writeChar ++ '"' :: rest) = some (ps, rest) := by
      intro cs
      induction cs with
      | nil => exact ⟨[], rfl, rfl⟩
      | cons c cs ih =>
        obtain ⟨ps, hspell, hread⟩ := ih
        obtain ⟨p, hp, hspellp⟩ := exists_piece c
        refine ⟨p :: ps, ?_, ?_⟩
        · rw [hspellp, hspell, Option.map_some]
        · rw [List.flatMap_cons, List.append_assoc, hp, hread, Option.map_some]
    obtain ⟨ps, hspell, hread⟩ := hchars s.toList
    simp only [writeContent, String.toList_ofList, List.cons_append, List.append_assoc,
      List.nil_append, readToken?, hread]
    show some (Token.scalar (.string ((spell? ps).map String.ofList)), rest) = _
    rw [hspell, Option.map_some, String.ofList_toList]

/-! ### Numbers -/

/-- What comes behind a number in a document without blanks: the end, a comma or a bracket. -/
def Stops (cs : List Char) : Prop :=
  ∀ c, cs.head? = some c → c = ',' ∨ c = ']' ∨ c = '\x7d'

/-- What comes behind a number does not begin as a part of one. -/
theorem Stops.head?_append_ne {rest : List Char} (h : Stops rest) {c : Char}
    (hc : c ∉ [',', ']', '\x7d']) {cs : List Char} (hcs : cs.head? ≠ some c) :
    (cs ++ rest).head? ≠ some c := by
  cases cs with
  | nil =>
    intro hrest
    exact hc (by simpa using h c hrest)
  | cons d cs => exact hcs

theorem takeDigits_append {rest : List Char} (h : Stops rest) (cs : List Char) :
    takeDigits (cs ++ rest) = ((takeDigits cs).1, (takeDigits cs).2 ++ rest) := by
  induction cs with
  | nil =>
    cases rest with
    | nil => rfl
    | cons c rest =>
      have hc : c.isDigit = false := by
        rcases h c rfl with rfl | rfl | rfl <;> decide
      simp [takeDigits, hc]
  | cons c cs ih =>
    by_cases hc : c.isDigit = true
    · simpa [takeDigits, hc] using ih
    · simp [takeDigits, hc]

theorem readWhole?_append {rest : List Char} (h : Stops rest) (cs : List Char) :
    readWhole? (cs ++ rest) = (readWhole? cs).map fun r => (r.1, r.2 ++ rest) := by
  unfold readWhole?
  rw [takeDigits_append h]
  obtain ⟨ds, below⟩ := takeDigits cs
  dsimp only
  split <;> simp_all

theorem readFraction?_append {rest : List Char} (h : Stops rest) (cs : List Char) :
    readFraction? (cs ++ rest) = (readFraction? cs).map fun r => (r.1, r.2 ++ rest) := by
  have hnone : ∀ cs : List Char, cs.head? ≠ some '.' → readFraction? cs = some (none, cs) := by
    intro cs hcs
    unfold readFraction?
    split <;> simp_all
  by_cases hcs : cs.head? = some '.'
  · obtain ⟨cs, rfl⟩ : ∃ cs', cs = '.' :: cs' := by
      cases cs <;> simp_all
    simp only [List.cons_append, readFraction?, takeDigits_append h]
    obtain ⟨ds, below⟩ := takeDigits cs
    cases ds <;> rfl
  · rw [hnone cs hcs, hnone _ (h.head?_append_ne (by decide) hcs)]
    rfl

theorem readPower?_append {rest : List Char} (h : Stops rest) (cs : List Char) :
    readPower? (cs ++ rest) = (readPower? cs).map fun r => (r.1, r.2 ++ rest) := by
  unfold readPower?
  rw [takeDigits_append h]
  obtain ⟨ds, below⟩ := takeDigits cs
  cases ds <;> rfl

theorem readExponent?_append {rest : List Char} (h : Stops rest) (cs : List Char) :
    readExponent? (cs ++ rest) = (readExponent? cs).map fun r => (r.1, r.2 ++ rest) := by
  -- the digits of the exponent are read in the same way behind either sign and behind none
  have hpower : ∀ (f : Nat → Int) (cs : List Char),
      ((readPower? (cs ++ rest)).map fun r => (some (f r.1), r.2)) =
        ((readPower? cs).map fun r => (some (f r.1), r.2)).map fun r => (r.1, r.2 ++ rest) := by
    intro f cs
    rw [readPower?_append h]
    cases readPower? cs <;> rfl
  cases cs with
  | nil =>
    cases rest with
    | nil => rfl
    | cons c rest => rcases h c rfl with rfl | rfl | rfl <;> rfl
  | cons c cs =>
    simp only [List.cons_append, readExponent?]
    by_cases hc : c = 'e' ∨ c = 'E'
    · rw [if_pos hc, if_pos hc]
      cases cs with
      | nil =>
        cases rest with
        | nil => rfl
        | cons c rest => rcases h c rfl with rfl | rfl | rfl <;> rfl
      | cons d cs =>
        by_cases hminus : d = '-'
        · subst hminus
          exact hpower (fun n => -n) cs
        · by_cases hplus : d = '+'
          · subst hplus
            exact hpower (fun n => n) cs
          · have hplain := hpower (fun n => n) (d :: cs)
            rw [List.cons_append] at hplain ⊢
            split <;> split <;> simp_all
    · rw [if_neg hc, if_neg hc]
      rfl

/-- What is read of a number does not depend on what comes behind it. -/
theorem readNumber?_append {rest : List Char} (h : Stops rest) (negative : Bool) (cs : List Char) :
    readNumber? negative (cs ++ rest) =
      (readNumber? negative cs).map fun r => (r.1, r.2 ++ rest) := by
  unfold readNumber?
  rw [readWhole?_append h]
  cases readWhole? cs with
  | none => rfl
  | some r =>
    simp only [Option.map_some, Option.bind_eq_bind, Option.bind_some, readFraction?_append h]
    cases readFraction? r.2 with
    | none => rfl
    | some r =>
      simp only [Option.map_some, Option.bind_some, readExponent?_append h]
      cases readExponent? r.2 <;> rfl

/-- Reads a number with its sign. -/
def readSigned? : List Char → Option (Number × List Char)
  | '-' :: cs => readNumber? true cs
  | cs => readNumber? false cs

theorem readSigned?_of_head {cs : List Char} (h : cs.head? ≠ some '-') :
    readSigned? cs = readNumber? false cs := by
  unfold readSigned?
  split <;> simp_all

theorem readSigned?_append {rest : List Char} (h : Stops rest) (cs : List Char) :
    readSigned? (cs ++ rest) = (readSigned? cs).map fun r => (r.1, r.2 ++ rest) := by
  by_cases hcs : cs.head? = some '-'
  · obtain ⟨cs, rfl⟩ : ∃ cs', cs = '-' :: cs' := by
      cases cs <;> simp_all
    exact readNumber?_append h true cs
  · rw [readSigned?_of_head hcs, readSigned?_of_head (h.head?_append_ne (by decide) hcs),
      readNumber?_append h]

/-- What is read as a number is the token of that number. -/
theorem readToken?_of_readSigned? {cs rest : List Char} {n : Number}
    (h : readSigned? cs = some (n, rest)) :
    (∃ c cs', cs = c :: cs' ∧ isSpace c = false) ∧
      readToken? cs = some (.scalar (.number n), rest) := by
  cases cs with
  | nil => cases h
  | cons c cs =>
    by_cases hc : c = '-'
    · subst hc
      have h : readNumber? true cs = some (n, rest) := h
      refine ⟨⟨_, _, rfl, by decide⟩, ?_⟩
      simp [readToken?, h]
    · have hnumber : readNumber? false (c :: cs) = some (n, rest) := by
        rwa [readSigned?_of_head (by simpa using hc)] at h
      have hdigit : c.isDigit = true := by
        by_contra hdigit
        simp [readNumber?, readWhole?, takeDigits, hdigit] at hnumber
      refine ⟨⟨_, _, rfl, ?_⟩, ?_⟩
      · by_contra hspace
        simp only [isSpace, Bool.not_eq_false, Bool.or_eq_true, beq_iff_eq] at hspace
        rcases hspace with ((rfl | rfl) | rfl) | rfl <;> simp at hdigit
      · unfold readToken?
        split <;> simp_all

theorem readWhole?_toDigits (n : Nat) :
    readWhole? (Nat.toDigits 10 n) = some (Nat.toDigits 10 n, []) := by
  have hdigits := @Decimal.isDigit_of_mem_toDigits n
  have htake : takeDigits (Nat.toDigits 10 n) = (Nat.toDigits 10 n, []) := by
    rw [takeDigits, List.takeWhile_eq_self_iff.2 hdigits, List.dropWhile_eq_nil_iff.2 hdigits]
  rw [readWhole?, htake]
  split
  · rename_i heq
    cases Nat.toDigits_ne_nil (congrArg Prod.fst heq)
  · rename_i d ds rest heq
    -- a number of two digits or more does not start with zero
    have heq : Nat.toDigits 10 n = '0' :: d :: ds := congrArg Prod.fst heq
    cases n with
    | zero => cases heq
    | succ n => exact absurd (by rw [heq]; rfl) (Decimal.head?_toDigits n.succ_pos)
  · rfl

/-- All digits of a number that fits are kept. -/
theorem appendFitting_eq (ds : List Char) (n : Nat) (h : Nat.ofDigitChars 10 ds n < UInt64.size) :
    appendFitting n ds = (Nat.ofDigitChars 10 ds n, []) := by
  induction ds generalizing n with
  | nil => rfl
  | cons d ds ih =>
    have hcons : Nat.ofDigitChars 10 (d :: ds) n =
        Nat.ofDigitChars 10 ds (n * 10 + (d.toNat - '0'.toNat)) := by
      rw [Nat.ofDigitChars_cons, Nat.mul_comm]
    rw [hcons] at h ⊢
    have hle : n * 10 + (d.toNat - '0'.toNat) ≤
        Nat.ofDigitChars 10 ds (n * 10 + (d.toNat - '0'.toNat)) := by
      rw [Nat.ofDigitChars_eq_ofDigitChars_zero]
      exact Nat.le_add_right_of_le (Nat.le_mul_of_pos_left _ (Nat.pow_pos (by decide)))
    rw [appendFitting, if_pos (Nat.lt_of_le_of_lt hle h), ih _ h]

/-- The number is read from its text. -/
def Number.ReadsBack (n : Number) : Prop := readSigned? (writeNumber n).toList = some (n, [])

instance (n : Number) : Decidable n.ReadsBack := inferInstanceAs (Decidable (_ = _))

/-- **An integer of at most 64 bits is read from its text.** -/
theorem Number.readsBack_integer (negative : Bool) {n : Nat} (h : n < UInt64.size) :
    (Number.integer negative n).ReadsBack := by
  have hnumber : ∀ negative, readNumber? negative (Nat.toDigits 10 n) =
      some (.integer negative n, []) := by
    intro negative
    have hfits : appendFitting 0 (Nat.toDigits 10 n) = (n, []) := by
      rw [appendFitting_eq _ _ (by rwa [Nat.ofDigitChars_ten_toDigits]),
        Nat.ofDigitChars_ten_toDigits]
    simp [readNumber?, readWhole?_toDigits, readFraction?, readExponent?, ofDigits, hfits]
  have htext : (writeNumber (.integer negative n)).toList =
      (if negative then ['-'] else []) ++ Nat.toDigits 10 n := by
    cases negative <;> simp [writeNumber]
  rw [ReadsBack, htext]
  cases negative with
  | true => exact hnumber true
  | false =>
    refine (readSigned?_of_head fun hhead => ?_).trans (hnumber false)
    have hdigit := Decimal.isDigit_of_mem_toDigits _ (List.mem_of_mem_head? hhead)
    cases hdigit

/-! ### Tokens -/

/-- The text is cut into the tokens, each of which takes a character that is no blank and what
follows it. -/
inductive Cuts : List Char → List Token → Prop
  | nil : Cuts [] []
  | cons {c : Char} {piece rest : List Char} {t : Token} {ts : List Token} (hc : isSpace c = false)
      (hread : readToken? (c :: (piece ++ rest)) = some (t, rest)) (hrest : Cuts rest ts) :
      Cuts (c :: (piece ++ rest)) (t :: ts)

theorem Cuts.tokensWithin? {cs : List Char} {ts : List Token} (h : Cuts cs ts) {fuel : Nat}
    (hfuel : cs.length ≤ fuel) : tokensWithin? fuel cs = some ts := by
  induction h generalizing fuel with
  | nil => cases fuel <;> rfl
  | @cons c piece rest t ts hc hread _ ih =>
    cases fuel with
    | zero => cases hfuel
    | succ fuel =>
      -- the token has taken a character, so the rest is shorter
      have hlength : rest.length ≤ fuel := by
        rw [List.length_cons, List.length_append] at hfuel
        omega
      simp [Json.tokensWithin?, List.dropWhile, hc, hread, ih hlength]

mutual

/-- The tokens of a document. -/
def tokens : Json → List Token
  | .array [] => [.openArray, .closeArray]
  | .array (item :: items) => .openArray :: (item.tokens ++ moreItems items)
  | .object [] => [.openObject, .closeObject]
  | .object ((name, value) :: fields) =>
    .openObject :: .scalar (.string name) :: .colon :: (value.tokens ++ moreFields fields)
  | j => [.scalar j]

/-- The tokens behind the first item of an array. -/
def moreItems : List Json → List Token
  | [] => [.closeArray]
  | item :: items => .comma :: (item.tokens ++ moreItems items)

/-- The tokens behind the first field of an object. -/
def moreFields : List (Content × Json) → List Token
  | [] => [.closeObject]
  | (name, value) :: fields =>
    .comma :: .scalar (.string name) :: .colon :: (value.tokens ++ moreFields fields)

end

/-! ### The machine -/

/-- At the start of an array, the first token of a value starts its first item. -/
theorem run?_firstItem (stack : List Frame) (j : Json) (ts : List Token) :
    run? (stack, .firstItem) (j.tokens ++ ts) =
      run? (.item [] :: stack, .value) (j.tokens ++ ts) := by
  cases j with
  | array items => cases items <;> rfl
  | object fields => cases fields <;> rfl
  | _ => rfl

mutual

/-- **The machine takes the tokens of a value as that value.** -/
theorem run?_tokens (stack : List Frame) (ts : List Token) : (j : Json) →
    run? (stack, .value) (j.tokens ++ ts) = run? (stack, .after j) ts
  | .null | .bool _ | .number _ | .string _ => rfl
  | .array [] | .object [] => rfl
  | .array (item :: items) => by
    have hitem := run?_tokens (.item [] :: stack) (moreItems items ++ ts) item
    have hitems := run?_moreItems stack ts [] item items
    calc run? (stack, .value) ((Json.array (item :: items)).tokens ++ ts)
        = run? (stack, .firstItem) (item.tokens ++ (moreItems items ++ ts)) := by
          rw [tokens, List.cons_append, List.append_assoc]
          rfl
      _ = _ := by rw [run?_firstItem, hitem, hitems]; rfl
  | .object ((name, value) :: fields) => by
    have hvalue := run?_tokens (.field [] name :: stack) (moreFields fields ++ ts) value
    have hfields := run?_moreFields stack ts [] name value fields
    calc run? (stack, .value) ((Json.object ((name, value) :: fields)).tokens ++ ts)
        = run? (.field [] name :: stack, .value) (value.tokens ++ (moreFields fields ++ ts)) := by
          rw [tokens, List.cons_append, List.cons_append, List.cons_append, List.append_assoc]
          rfl
      _ = _ := by rw [hvalue, hfields]; rfl

theorem run?_moreItems (stack : List Frame) (ts : List Token) (before : List Json) (j : Json) :
    (items : List Json) → run? (.item before :: stack, .after j) (moreItems items ++ ts) =
      run? (stack, .after (.array ((j :: before).reverse ++ items))) ts
  | [] => by
    rw [List.append_nil]
    rfl
  | item :: items => by
    have hitem := run?_tokens (.item (j :: before) :: stack) (moreItems items ++ ts) item
    have hitems := run?_moreItems stack ts (j :: before) item items
    calc run? (.item before :: stack, .after j) (moreItems (item :: items) ++ ts)
        = run? (.item (j :: before) :: stack, .value)
            (item.tokens ++ (moreItems items ++ ts)) := by
          rw [moreItems, List.cons_append, List.append_assoc]
          rfl
      _ = _ := by
        rw [hitem, hitems, List.reverse_cons, List.append_assoc, List.singleton_append]

theorem run?_moreFields (stack : List Frame) (ts : List Token) (before : List (Content × Json))
    (name : Content) (j : Json) : (fields : List (Content × Json)) →
      run? (.field before name :: stack, .after j) (moreFields fields ++ ts) =
        run? (stack, .after (.object (((name, j) :: before).reverse ++ fields))) ts
  | [] => by
    rw [List.append_nil]
    rfl
  | (name', value) :: fields => by
    have hvalue := run?_tokens (.field ((name, j) :: before) name' :: stack)
      (moreFields fields ++ ts) value
    have hfields := run?_moreFields stack ts ((name, j) :: before) name' value fields
    calc run? (.field before name :: stack, .after j) (moreFields ((name', value) :: fields) ++ ts)
        = run? (.field ((name, j) :: before) name' :: stack, .value)
            (value.tokens ++ (moreFields fields ++ ts)) := by
          rw [moreFields, List.cons_append, List.cons_append, List.cons_append, List.append_assoc]
          rfl
      _ = _ := by
        rw [hvalue, hfields, List.reverse_cons, List.append_assoc, List.singleton_append]

end

/-! ### Documents -/

mutual

/-- The numbers in a document. -/
def numbers : Json → List Number
  | .number n => [n]
  | .array items => numbersItems items
  | .object fields => numbersFields fields
  | _ => []

/-- The numbers in the items of an array. -/
def numbersItems : List Json → List Number
  | [] => []
  | item :: items => item.numbers ++ numbersItems items

/-- The numbers in the fields of an object. -/
def numbersFields : List (Content × Json) → List Number
  | [] => []
  | (_, value) :: fields => value.numbers ++ numbersFields fields

end

/-- Every number of the document is read from its text. -/
def Legible (j : Json) : Prop := ∀ n ∈ j.numbers, n.ReadsBack

theorem legible_array {items : List Json} :
    (Json.array items).Legible ↔ ∀ j ∈ items, j.Legible := by
  have hitems : numbersItems items = items.flatMap numbers := by
    induction items with
    | nil => rfl
    | cons item items ih => rw [numbersItems, ih, List.flatMap_cons]
  rw [Legible, numbers, hitems]
  exact List.forall_mem_flatMap

theorem legible_object {fields : List (Content × Json)} :
    (Json.object fields).Legible ↔ ∀ f ∈ fields, f.2.Legible := by
  have hfields : numbersFields fields = fields.flatMap fun f => f.2.numbers := by
    induction fields with
    | nil => rfl
    | cons f fields ih => rw [numbersFields, ih, List.flatMap_cons]
  rw [Legible, numbers, hfields]
  exact List.forall_mem_flatMap

theorem legible_ofFields {fields : List (String × Json)} :
    (ofFields fields).Legible ↔ ∀ f ∈ fields, f.2.Legible :=
  legible_object.trans List.forall_mem_map

theorem legible_null : Json.null.Legible := fun _ hn => by cases hn

theorem legible_bool (b : Bool) : (Json.bool b).Legible := fun _ hn => by cases hn

theorem legible_ofText (s : String) : (ofText s).Legible := fun _ hn => by cases hn

theorem legible_number {n : Number} : (Json.number n).Legible ↔ n.ReadsBack :=
  List.forall_mem_singleton

theorem legible_ofInt {n : Int} (h : n.natAbs < UInt64.size) : (ofInt n).Legible :=
  legible_number.2 (Number.readsBack_integer _ h)

theorem toList_intercalate_cons (x : String) (xs : List String) :
    (",".intercalate (x :: xs)).toList = x.toList ++ xs.flatMap fun y => ',' :: y.toList := by
  have hcomma : ",".toList = [','] := by decide
  rw [Text.toList_intercalate_cons, hcomma]
  rfl

theorem Cuts.of_read {text rest : List Char} {t : Token} {ts : List Token}
    (htext : ∃ c cs, text = c :: cs ∧ isSpace c = false)
    (hread : readToken? (text ++ rest) = some (t, rest)) (hrest : Cuts rest ts) :
    Cuts (text ++ rest) (t :: ts) := by
  obtain ⟨c, cs, rfl, hc⟩ := htext
  exact .cons hc hread hrest

theorem Cuts.content {rest : List Char} {ts : List Token} (h : Cuts rest ts) (content : Content) :
    Cuts ((writeContent content).toList ++ rest) (.scalar (.string content) :: ts) := by
  refine .of_read ⟨'"', ?_⟩ (readToken?_writeContent content rest) h
  cases content with
  | none => exact ⟨_, toList_writeContent_none, by decide⟩
  | some s => exact ⟨_, String.toList_ofList, by decide⟩

theorem Cuts.number {rest : List Char} {ts : List Token} (h : Cuts rest ts) (hstops : Stops rest)
    {n : Number} (hn : n.ReadsBack) :
    Cuts ((writeNumber n).toList ++ rest) (.scalar (.number n) :: ts) := by
  refine .of_read (readToken?_of_readSigned? hn).1 (readToken?_of_readSigned? ?_).2 h
  rw [readSigned?_append hstops, hn, Option.map_some, List.nil_append]

/-- A token of one character. -/
theorem Cuts.mark {c : Char} {rest : List Char} {t : Token} {ts : List Token} (h : Cuts rest ts)
    (hc : isSpace c = false) (hread : ∀ rest, readToken? (c :: rest) = some (t, rest)) :
    Cuts (c :: rest) (t :: ts) :=
  @Cuts.cons c [] rest t ts hc (hread rest) h

/-- What comes behind an item or a field is another one or a bracket. -/
theorem stops_more {c : Char} (hc : c = ']' ∨ c = '\x7d') (texts : List String)
    (rest : List Char) : Stops ((texts.flatMap fun t => ',' :: t.toList) ++ c :: rest) := by
  cases texts with
  | nil => exact fun d hd => .inr (Option.some.inj hd ▸ hc)
  | cons t texts => exact fun d hd => .inl (Option.some.inj hd).symm

mutual

/-- **The text of a document is cut into the tokens of the document.** -/
theorem cuts_compact {rest : List Char} {ts : List Token} (hstops : Stops rest) (h : Cuts rest ts) :
    (j : Json) → j.Legible → Cuts (j.compact.toList ++ rest) (j.tokens ++ ts)
  | .null, _ => .of_read ⟨'n', _, by rfl, by decide⟩ rfl h
  | .bool true, _ => .of_read ⟨'t', _, by rfl, by decide⟩ rfl h
  | .bool false, _ => .of_read ⟨'f', _, by rfl, by decide⟩ rfl h
  | .number n, hj => h.number hstops (hj n List.mem_cons_self)
  | .string content, _ => h.content content
  | .array [], _ => (h.mark (by decide) fun _ => rfl).mark (by decide) fun _ => rfl
  | .object [], _ => (h.mark (by decide) fun _ => rfl).mark (by decide) fun _ => rfl
  | .array (item :: items), hj => by
    rw [legible_array, List.forall_mem_cons] at hj
    have hitems := cuts_moreItems h items hj.2
    have hitem := cuts_compact (stops_more (.inl rfl) _ rest) hitems item hj.1
    have hopen : "[".toList = ['['] := by decide
    have hclose : "]".toList = [']'] := by decide
    simp only [compact, compactItems, String.toList_append, toList_intercalate_cons, hopen, hclose,
      tokens, List.append_assoc, List.cons_append, List.nil_append]
    exact hitem.mark (by decide) fun _ => rfl
  | .object ((name, value) :: fields), hj => by
    rw [legible_object, List.forall_mem_cons] at hj
    have hfields := cuts_moreFields h fields hj.2
    have hvalue := cuts_compact (stops_more (.inr rfl) _ rest) hfields value hj.1
    have hcolon : ":".toList = [':'] := by decide
    have hopen : "\x7b".toList = ['\x7b'] := by decide
    have hclose : "\x7d".toList = ['\x7d'] := by decide
    simp only [compact, compactFields, String.toList_append, toList_intercalate_cons, hcolon, hopen,
      hclose, tokens, List.append_assoc, List.cons_append, List.nil_append]
    exact ((hvalue.mark (by decide) fun _ => rfl).content name).mark (by decide) fun _ => rfl

theorem cuts_moreItems {rest : List Char} {ts : List Token} (h : Cuts rest ts) :
    (items : List Json) → (∀ j ∈ items, j.Legible) →
      Cuts (((compactItems items).flatMap fun t => ',' :: t.toList) ++ ']' :: rest)
        (moreItems items ++ ts)
  | [], _ => h.mark (by decide) fun _ => rfl
  | item :: items, hj => by
    rw [List.forall_mem_cons] at hj
    have hitems := cuts_moreItems h items hj.2
    have hitem := cuts_compact (stops_more (.inl rfl) _ rest) hitems item hj.1
    simp only [compactItems, List.flatMap_cons, moreItems, List.append_assoc, List.cons_append]
    exact hitem.mark (by decide) fun _ => rfl

theorem cuts_moreFields {rest : List Char} {ts : List Token} (h : Cuts rest ts) :
    (fields : List (Content × Json)) → (∀ f ∈ fields, f.2.Legible) →
      Cuts (((compactFields fields).flatMap fun t => ',' :: t.toList) ++ '\x7d' :: rest)
        (moreFields fields ++ ts)
  | [], _ => h.mark (by decide) fun _ => rfl
  | (name, value) :: fields, hj => by
    rw [List.forall_mem_cons] at hj
    have hvalue := cuts_compact (stops_more (.inr rfl) _ rest) (cuts_moreFields h fields hj.2) value
      hj.1
    have hcolon : ":".toList = [':'] := by decide
    simp only [compactFields, List.flatMap_cons, String.toList_append, hcolon, moreFields,
      List.append_assoc, List.cons_append, List.nil_append]
    exact ((hvalue.mark (by decide) fun _ => rfl).content name).mark (by decide) fun _ => rfl

end

/-- **Reading undoes writing**: a document is read from its text, if its numbers are. -/
theorem parse?_compact {j : Json} (h : j.Legible) : parse? j.compact = some j := by
  have hstops : Stops [] := by rintro c ⟨⟩
  have hcuts := cuts_compact hstops .nil j h
  rw [List.append_nil, List.append_nil] at hcuts
  have htokens : tokens? j.compact.toList = some j.tokens := hcuts.tokensWithin? (Nat.le_refl _)
  have hrun : run? ([], .value) j.tokens = some ([], .after j) := by
    have hrun := run?_tokens [] [] j
    rwa [List.append_nil] at hrun
  simp [parse?, htokens, hrun]

end StaticScript.Json
