import StaticScript.Proofs.Target.Comments
import StaticScript.Proofs.Target.Readability

/-!
# The names of the standard library in a program

Which names of the standard library occur in the text of a program, and from which nodes of its
tree they come.  What counts is the code of the text: what is left of it once lines are spliced and
comments and literals are taken out (`code`).  A name of the library is an identifier behind
`std::` (`Mentions`).

Such a name has no separators in it, and so it stands on one side of every separator in the code
(`Mentions.of_append_cons`).  The printer sets separators between all names.  `Uses w P` says of a
text that it can be read by itself and that all names of the library in it have the property `P`;
such texts can be put together wherever one of the two has a separator at the joint
(`Sealed.append_uses`, `Uses.joint`).

**Main theorem** (`Program.name_of_mentions`): if `P` holds of the names of the library that the
nodes of a program ask for (`Program.Names`), it holds of all that occur in its code.  The other
names in the program must be plain (`isPlainText`), and its comments must not break their lines.  A
plain name may have backslashes in it: what is spliced then is the name itself, for the printer lets
no line end behind a name.
-/

namespace StaticScript.Target

/-! ### Code -/

/-- One is in a literal. -/
def Mode.isQuoted : Mode → Bool
  | .literal _ | .escape _ => true
  | _ => false

/-- What is read outside comments and literals.  The opening quote of a literal remains. -/
def outside (m : Mode) : List Char → List Char
  | [] => []
  | c :: cs => (if m.isQuoted then [] else (m.read c).1) ++ outside (m.read c).2 cs

/-- The code of a text. -/
def code (white : Char → Bool) (cs : List Char) : List Char := outside .code (splice white cs)

theorem outside_append (m : Mode) (a b : List Char) :
    outside m (a ++ b) = outside m a ++ outside (scan m a).2 b := by
  induction a generalizing m with
  | nil => rfl
  | cons c a ih => simp only [List.cons_append, outside, scan, ih, List.append_assoc]

theorem outside_sublist (m : Mode) (cs : List Char) : (outside m cs).Sublist (scan m cs).1 := by
  induction cs generalizing m with
  | nil => exact List.Sublist.slnil
  | cons c cs ih =>
    rw [outside, scan]
    refine List.Sublist.append ?_ (ih _)
    split
    · exact List.nil_sublist _
    · exact List.Sublist.refl _

/-- The character begins neither a comment nor a literal. -/
def isCalm (c : Char) : Bool := c != '/' && c != '"' && c != '\x27'

theorem read_of_isCalm {c : Char} (h : isCalm c = true) : Mode.read .code c = ([c], .code) := by
  simp only [isCalm, Bool.and_eq_true, bne_iff_ne] at h
  obtain ⟨⟨hslash, hquote⟩, hsingle⟩ := h
  rw [Mode.read, if_neg hslash, Mode.behind, if_neg (not_or.2 ⟨hquote, hsingle⟩)]

theorem outside_of_isCalm {cs : List Char} (h : ∀ c ∈ cs, isCalm c = true) :
    outside .code cs = cs ∧ (scan .code cs).2 = .code := by
  induction cs with
  | nil => exact ⟨rfl, rfl⟩
  | cons c cs ih =>
    rw [List.forall_mem_cons] at h
    obtain ⟨hcode, hmode⟩ := ih h.2
    simp only [outside, scan, read_of_isCalm h.1, hcode, hmode]
    exact ⟨rfl, trivial⟩

/-! ### Names -/

/-- The character stands in no name, whether qualified or not. -/
def isSeparator (c : Char) : Bool := !isIdentifierChar c && c != ':'

/-- The name `std::x` occurs in the code, and does not go on behind `x`. -/
def Mentions (cs : List Char) (x : String) : Prop :=
  ∃ front back, cs = front ++ ("std::" ++ x).toList ++ back ∧
    (∀ c ∈ x.toList, isIdentifierChar c = true) ∧ ∀ c ∈ back.head?, isIdentifierChar c = false

theorem isSeparator_of_mem_name {x : String} (hx : ∀ c ∈ x.toList, isIdentifierChar c = true)
    {c : Char} (hc : c ∈ ("std::" ++ x).toList) : isSeparator c = false := by
  have hqualifier : "std::".toList.all (!isSeparator ·) = true := by decide
  rw [String.toList_append, List.mem_append] at hc
  rcases hc with hc | hc
  · simpa using List.all_eq_true.1 hqualifier c hc
  · rw [isSeparator, hx c hc]
    rfl

namespace Mentions

variable {a b : List Char} {d : Char} {x : String}

/-- **A name stands on one side of a separator.** -/
theorem of_append_cons (hd : isSeparator d = true) (h : Mentions (a ++ d :: b) x) :
    Mentions a x ∨ Mentions b x := by
  obtain ⟨front, back, heq, hx, hback⟩ := h
  have hname : d ∉ ("std::" ++ x).toList := by
    intro hmem
    rw [isSeparator_of_mem_name hx hmem] at hd
    cases hd
  -- The name and what is before it may end before the separator, or behind it.
  rcases List.append_eq_append_iff.1 heq.symm with ⟨rest, rfl, rfl⟩ | ⟨rest, hfront, hrest⟩
  · refine .inl ⟨front, rest, rfl, hx, fun c hc => hback c ?_⟩
    cases rest with
    | nil => cases hc
    | cons => exact hc
  · cases rest with
    | nil =>
      rw [List.append_nil] at hfront
      exact .inl ⟨front, [], by rw [← hfront, List.append_nil], hx, by simp⟩
    | cons d' rest =>
      obtain ⟨rfl, rfl⟩ := List.cons.inj hrest
      -- The separator is not in the name, so it is before it.
      rcases List.append_eq_append_iff.1 hfront with ⟨e, rfl, hend⟩ | ⟨e, rfl, hend⟩
      · exact absurd (hend ▸ List.mem_append_right e List.mem_cons_self) hname
      · cases e with
        | nil =>
          rw [List.nil_append] at hend
          exact absurd (hend ▸ List.mem_cons_self) hname
        | cons d' e =>
          obtain ⟨-, rfl⟩ := List.cons.inj hend
          exact .inr ⟨e, back, rfl, hx, hback⟩

/-- A separator ends a name. -/
theorem append_cons (hd : isSeparator d = true) (h : Mentions a x) (b : List Char) :
    Mentions (a ++ d :: b) x := by
  obtain ⟨front, back, rfl, hx, hback⟩ := h
  refine ⟨front, back ++ d :: b, by simp, hx, ?_⟩
  cases back with
  | nil =>
    rintro c ⟨⟩
    simp only [isSeparator, Bool.and_eq_true, Bool.not_eq_true'] at hd
    exact hd.1
  | cons => exact hback

theorem cons (d : Char) (h : Mentions b x) : Mentions (d :: b) x := by
  obtain ⟨front, back, rfl, hx, hback⟩ := h
  exact ⟨d :: front, back, rfl, hx, hback⟩

/-- A name that may go on behind `x` is the beginning of a name that does not. -/
theorem of_infix {cs : List Char} {x : String} (hx : ∀ c ∈ x.toList, isIdentifierChar c = true)
    (h : ("std::" ++ x).toList <:+: cs) : ∃ y, x.toList <+: y.toList ∧ Mentions cs y := by
  obtain ⟨front, back, rfl⟩ := h
  refine ⟨x ++ String.ofList (back.takeWhile isIdentifierChar), ?_, front,
    back.dropWhile isIdentifierChar, ?_, ?_, ?_⟩
  · rw [String.toList_append]
    exact List.prefix_append _ _
  · simp only [String.toList_append, String.toList_ofList, List.append_assoc,
      List.takeWhile_append_dropWhile]
  · rw [String.toList_append, String.toList_ofList, List.forall_mem_append]
    exact ⟨hx, fun c hc => List.mem_takeWhile_imp hc⟩
  · intro c hc
    have hhead := List.head?_dropWhile_not isIdentifierChar back
    rwa [Option.mem_def.1 hc] at hhead

/-- A name needs two colons side by side. -/
theorem colons (h : Mentions a x) : [':', ':'] <:+: a := by
  obtain ⟨front, back, rfl, -⟩ := h
  have hqualifier : [':', ':'] <:+: "std::".toList := by decide
  rw [String.toList_append]
  exact hqualifier.trans ⟨front, x.toList ++ back, by simp⟩

end Mentions

/-! ### Texts and their names -/

/-- A notion of the white space that may stand behind a backslash at the end of a line. -/
structure White where
  holds : Char → Bool
  isBlank_of_holds : ∀ c, holds c = true → Text.isBlank c = true

/-- The text can be read by itself, and all names of the library in its code have the property. -/
structure Uses (w : White) (P : String → Prop) (s : String) : Prop where
  ends : (scan .code (splice w.holds s.toList)).2 = .code
  names : ∀ x, Mentions (code w.holds s.toList) x → P x

/-- No backslash at the end of the text is spliced with what follows. -/
structure Closed (w : White) (P : String → Prop) (s : String) : Prop extends Uses w P s where
  spliced : ∀ rest, splice w.holds (s.toList ++ rest) =
    splice w.holds s.toList ++ splice w.holds rest

/-- A name at the end of the text does not go on in what follows, either. -/
structure Sealed (w : White) (P : String → Prop) (s : String) : Prop extends Closed w P s where
  last : (code w.holds s.toList).getLast?.all isSeparator = true

/-- A text without names of the library that can be read by itself and has a separator at its
end. -/
def isFiller (s : String) : Bool :=
  !hasTrailingBackslash s.toList && (scan .code s.toList).2 == .code &&
    !decide ([':', ':'] <:+: outside .code s.toList) &&
    (outside .code s.toList).getLast?.all isSeparator

/-- A filler that has a separator at its start, too. -/
def isGap (s : String) : Bool := isFiller s && (outside .code s.toList).head?.any isSeparator

/-- A gap that does not end the line before it. -/
def isJoint (s : String) : Bool := isGap s && !blankToEnd s.toList

section

variable {w : White} {P : String → Prop} {s t : String}

theorem code_of_unspliced (w : White) {cs : List Char} (h : hasTrailingBackslash cs = false) :
    code w.holds cs = outside .code cs := by
  rw [code, splice_eq_self w.isBlank_of_holds h]

/-- A text from which nothing is spliced. -/
theorem closed_of_unspliced (hsplice : hasTrailingBackslash s.toList = false)
    (hends : (scan .code s.toList).2 = .code)
    (hnames : ∀ x, Mentions (outside .code s.toList) x → P x) : Closed w P s where
  ends := by rwa [splice_eq_self w.isBlank_of_holds hsplice]
  names := by rwa [code_of_unspliced w hsplice]
  spliced rest := by
    rw [splice_append w.isBlank_of_holds hsplice, splice_eq_self w.isBlank_of_holds hsplice]

theorem code_of_isFiller (h : isFiller s = true) :
    code w.holds s.toList = outside .code s.toList := by
  simp only [isFiller, Bool.and_eq_true, Bool.not_eq_true'] at h
  exact code_of_unspliced w h.1.1.1

theorem sealed_of_isFiller (h : isFiller s = true) : Sealed w P s := by
  have hcode := code_of_isFiller (w := w) h
  simp only [isFiller, Bool.and_eq_true, Bool.not_eq_true', beq_iff_eq, decide_eq_false_iff_not]
    at h
  obtain ⟨⟨⟨hsplice, hends⟩, hcolons⟩, hlast⟩ := h
  refine ⟨closed_of_unspliced hsplice hends fun x hx => absurd hx.colons hcolons, ?_⟩
  rwa [hcode]

/-- The second text is spliced apart from the first one, whatever follows them. -/
def Apart (w : White) (s t : String) : Prop :=
  ∀ rest, splice w.holds (s.toList ++ (t.toList ++ rest)) =
    splice w.holds s.toList ++ splice w.holds (t.toList ++ rest)

theorem Closed.apart (hs : Closed w P s) (t : String) : Apart w s t := fun _ => hs.spliced _

namespace Apart

theorem splice_eq (h : Apart w s t) :
    splice w.holds (s ++ t).toList = splice w.holds s.toList ++ splice w.holds t.toList := by
  have hboth := h []
  rwa [List.append_nil, ← String.toList_append] at hboth

theorem code_eq (h : Apart w s t) (hs : Uses w P s) :
    code w.holds (s ++ t).toList = code w.holds s.toList ++ code w.holds t.toList := by
  rw [code, h.splice_eq, outside_append, hs.ends]
  rfl

/-- Two texts with a separator at the joint. -/
theorem uses (h : Apart w s t) (hs : Uses w P s) (ht : Uses w P t)
    (hnames : ∀ x, Mentions (code w.holds s.toList ++ code w.holds t.toList) x →
      Mentions (code w.holds s.toList) x ∨ Mentions (code w.holds t.toList) x) :
    Uses w P (s ++ t) where
  ends := by
    rw [h.splice_eq, scan_append, hs.ends]
    exact ht.ends
  names x hx := by
    rw [h.code_eq hs] at hx
    exact (hnames x hx).elim (hs.names x) (ht.names x)

theorem closed (h : Apart w s t) (ht : Closed w P t) (hboth : Uses w P (s ++ t)) :
    Closed w P (s ++ t) where
  toUses := hboth
  spliced rest := by
    rw [h.splice_eq, String.toList_append, List.append_assoc, h, ht.spliced, List.append_assoc]

/-- A gap behind a text seals it. -/
theorem sealed (h : Apart w s t) (hs : Uses w P s) (ht : isGap t = true) : Sealed w P (s ++ t) := by
  obtain ⟨hfiller, hhead⟩ := Bool.and_eq_true_iff.1 ht
  have hsealed : Sealed w P t := sealed_of_isFiller hfiller
  rw [← code_of_isFiller (w := w) hfiller] at hhead
  obtain ⟨d, rest, heq⟩ : ∃ d rest, code w.holds t.toList = d :: rest := by
    cases heq : code w.holds t.toList with
    | nil => rw [heq] at hhead; cases hhead
    | cons d rest => exact ⟨d, rest, rfl⟩
  rw [heq] at hhead
  have hboth : Uses w P (s ++ t) := by
    refine h.uses hs hsealed.toUses fun x hx => ?_
    rw [heq] at hx ⊢
    exact (hx.of_append_cons hhead).imp_right fun h => h.cons d
  refine ⟨h.closed hsealed.toClosed hboth, ?_⟩
  have hlast := hsealed.last
  rw [h.code_eq hs, List.getLast?_append, heq]
  rw [heq] at hlast
  rw [List.getLast?_cons] at hlast ⊢
  exact hlast

end Apart

theorem Sealed.append_uses (hs : Sealed w P s) (ht : Uses w P t) : Uses w P (s ++ t) := by
  refine (hs.apart t).uses hs.toUses ht fun x hx => ?_
  rcases List.eq_nil_or_concat (code w.holds s.toList) with hnil | ⟨front, d, hlast⟩
  · rw [hnil] at hx
    exact .inr hx
  · have hd := hs.last
    rw [List.concat_eq_append] at hlast
    rw [hlast, List.getLast?_concat, Option.all_some] at hd
    rw [hlast, List.append_assoc] at hx
    rw [hlast]
    exact (hx.of_append_cons hd).imp_left fun h => h.append_cons hd []

theorem Sealed.append_closed (hs : Sealed w P s) (ht : Closed w P t) : Closed w P (s ++ t) :=
  (hs.apart t).closed ht (hs.append_uses ht.toUses)

theorem Sealed.append (hs : Sealed w P s) (ht : Sealed w P t) : Sealed w P (s ++ t) := by
  refine ⟨hs.append_closed ht.toClosed, ?_⟩
  have hlast := ht.last
  rw [(hs.apart t).code_eq hs.toUses, List.getLast?_append]
  cases hend : (code w.holds t.toList).getLast? with
  | none => exact hs.last
  | some d =>
    rw [hend] at hlast
    exact hlast

theorem Closed.gap (hs : Closed w P s) (ht : isGap t = true) : Sealed w P (s ++ t) :=
  (hs.apart t).sealed hs.toUses ht

/-- A joint does not end the line, so a backslash before it stays. -/
theorem Uses.joint (hs : Uses w P s) (ht : isJoint t = true) : Sealed w P (s ++ t) := by
  simp only [isJoint, Bool.and_eq_true, Bool.not_eq_true'] at ht
  have hapart : Apart w s t := fun rest =>
    splice_append_of_dropLine? (dropLine?_append w.isBlank_of_holds ht.2 rest) s.toList
  exact hapart.sealed hs ht.1

/-! ### Words -/

/-- The character has no meaning for comments, literals and qualified names. -/
def isPlain (c : Char) : Bool := isCalm c && c != ':'

/-- All characters of the text are plain. -/
def isPlainText (s : String) : Bool := s.toList.all isPlain

theorem uses_of_isPlainText (h : isPlainText s = true) : Uses w P s := by
  simp only [isPlainText, List.all_eq_true, isPlain, Bool.and_eq_true, bne_iff_ne] at h
  -- There may be backslashes to splice at, but all that is left is plain.
  have hspliced := (splice_sublist w.holds s.toList).subset
  obtain ⟨hcode, hmode⟩ := outside_of_isCalm fun c hc => (h c (hspliced hc)).1
  refine ⟨hmode, fun x hx => ?_⟩
  rw [code, hcode] at hx
  exact absurd rfl (h ':' (hspliced (hx.colons.subset (by simp)))).2

/-- All characters of the text are those of identifiers. -/
def isWord (s : String) : Bool := s.toList.all isIdentifierChar

theorem isPlain_of_isIdentifierChar {c : Char} (h : isIdentifierChar c = true) :
    isPlain c = true := by
  simp only [isPlain, isCalm, Bool.and_eq_true, bne_iff_ne]
  refine ⟨⟨⟨?_, ?_⟩, ?_⟩, ?_⟩ <;> (rintro rfl; revert h; decide)

theorem eq_of_mentions_qualified {x y : String} (hx : isWord x = true)
    (h : Mentions ("std::" ++ x).toList y) : y = x := by
  obtain ⟨front, back, heq, hy, hback⟩ := h
  rw [isWord, List.all_eq_true] at hx
  have hcolon : ':' ∉ x.toList := by
    intro hmem
    have := hx _ hmem
    contradiction
  have hqualifier : "std::".toList = ['s', 't', 'd', ':', ':'] := by decide
  simp only [String.toList_append, hqualifier, List.cons_append, List.nil_append,
    List.append_assoc] at heq
  -- No other `std::` begins in the first one, and none is behind it.
  obtain rfl : front = [] := by
    rcases front with _ | ⟨c₁, _ | ⟨c₂, _ | ⟨c₃, _ | ⟨c₄, _ | ⟨c₅, front⟩⟩⟩⟩⟩
    · rfl
    all_goals simp only [List.cons_append, List.nil_append, List.cons.injEq] at heq
    · simp at heq
    · simp at heq
    · simp at heq
    · simp at heq
    · exact absurd (by rw [heq.2.2.2.2.2]; simp) hcolon
  have heq : x.toList = y.toList ++ back := by simpa using heq
  -- The name goes on as long as there are characters of names, and `x` has no others.
  obtain rfl : back = [] := by
    cases back with
    | nil => rfl
    | cons c back =>
      have hc := hx c (by rw [heq]; simp)
      rw [hback c rfl] at hc
      cases hc
  rw [List.append_nil] at heq
  exact String.toList_injective heq.symm

/-- A text without separators is its own code. -/
theorem closed_of_isSeparator (h : ∀ c ∈ s.toList, isSeparator c = false)
    (hnames : ∀ x, Mentions s.toList x → P x) : Closed w P s := by
  have hcalm : ∀ c ∈ s.toList, isCalm c = true := by
    intro c hc
    simp only [isCalm, Bool.and_eq_true, bne_iff_ne]
    refine ⟨⟨?_, ?_⟩, ?_⟩ <;> (rintro rfl; cases h _ hc)
  obtain ⟨hcode, hmode⟩ := outside_of_isCalm hcalm
  refine closed_of_unspliced (hasTrailingBackslash_of_notMem fun hmem => ?_) hmode ?_
  · cases h _ hmem
  · rwa [hcode]

theorem closed_of_isWord (h : isWord s = true) : Closed w P s := by
  rw [isWord, List.all_eq_true] at h
  refine closed_of_isSeparator (fun c hc => ?_) fun x hx => ?_
  · rw [isSeparator, h c hc]
    rfl
  · cases h ':' (hx.colons.subset (by simp))

/-- A name of the library by itself. -/
theorem closed_qualified {x : String} (hx : isWord x = true) (hP : P x) :
    Closed w P ("std::" ++ x) := by
  refine closed_of_isSeparator (fun c hc => ?_) fun y hy => ?_
  · exact isSeparator_of_mem_name (List.all_eq_true.1 hx) hc
  · rwa [eq_of_mentions_qualified hx hy]

theorem isPlain_of_isNumeral {c : Char} (h : Double.isNumeral c = true) : isPlain c = true := by
  simp only [Double.isNumeral, Bool.or_eq_true, beq_iff_eq] at h
  rcases h with ((h | rfl) | rfl) | rfl
  · refine isPlain_of_isIdentifierChar ?_
    simp [isIdentifierChar, Char.isAlphanum, h]
  · rfl
  · rfl
  · rfl

theorem isPlainText_int (n : Int) : isPlainText (toString n) = true := by
  refine List.all_eq_true.2 fun c hc => isPlain_of_isNumeral ?_
  rw [Decimal.toList_toString, List.mem_append] at hc
  rcases hc with hc | hc
  · split at hc
    · obtain rfl := List.mem_singleton.1 hc
      rfl
    · cases hc
  · rw [Double.isNumeral, Decimal.isDigit_of_mem_toDigits c hc]
    rfl

theorem isWord_nat (n : Nat) : isWord (toString n) = true := by
  refine List.all_eq_true.2 fun c hc => ?_
  have hdigits : (toString n).toList = Nat.toDigits 10 n := Decimal.toList_toString n
  rw [hdigits] at hc
  simp [isIdentifierChar, Char.isAlphanum, Decimal.isDigit_of_mem_toDigits c hc]

theorem uses_int (n : Int) : Uses w P (toString n) := uses_of_isPlainText (isPlainText_int n)

theorem uses_double (x : Double) : Uses w P x.text := by
  refine uses_of_isPlainText (List.all_eq_true.2 fun c hc => isPlain_of_isNumeral ?_)
  rw [Double.toList_text, List.mem_append] at hc
  rcases hc with hc | hc
  · split at hc
    · obtain rfl := List.mem_singleton.1 hc
      rfl
    · cases hc
  · exact (Double.unsigned_form x).2.1 c hc

theorem outside_spelling (mark : Bool) (c : Char) :
    outside (.literal '"') (spelling mark c) = [] := by
  obtain ⟨sign, h, -⟩ | ⟨h, -⟩ | ⟨h, -⟩ := spelling_cases mark c
  · rw [h]
    rfl
  · obtain ⟨d₁, d₂, d₃, hoctal, -, h₂, h₃⟩ := octal_plain c.toNat
    rw [h, hoctal]
    simp [outside, Mode.read, Mode.isQuoted, h₂.quote, h₂.slash]
  · rw [h]
    rfl

theorem outside_escapeChars (mark : Bool) (cs : List Char) :
    outside (.literal '"') (escapeChars mark cs) = [] := by
  induction cs generalizing mark with
  | nil => rfl
  | cons c cs ih =>
    rw [escapeChars_cons, outside_append, outside_spelling, scan_spelling, ih, List.nil_append]

/-- Of a literal only its opening quote is code. -/
theorem closed_literal (value : String) : Closed w P (literal value) := by
  have hopen : Mode.read .code '"' = (['"'], .literal '"') := rfl
  refine closed_of_unspliced ?_ ?_ fun x hx => ?_
  · have hfeed : '\n' ∉ '"' :: escapeChars false value.toList := by
      rw [List.mem_cons, not_or]
      refine ⟨by decide, fun hmem => ?_⟩
      exact List.any_eq_false.1 (isControl_escapeChars false value.toList) _ hmem rfl
    rw [toList_literal, hasTrailingBackslash_append_cons hfeed (by decide)]
    decide
  · rw [toList_literal, List.cons_append, scan, scan_append, hopen, scan_escapeChars]
    rfl
  · have hcode : outside .code (literal value).toList = ['"'] := by
      rw [toList_literal, List.cons_append, outside, outside_append, hopen, outside_escapeChars,
        scan_escapeChars]
      rfl
    rw [hcode] at hx
    exact absurd hx.colons (by decide)

theorem closed_cppName (t : StaticType) (h : t = .string → P "string") :
    Closed w P t.cppName := by
  cases t with
  | string => exact closed_qualified (x := "string") (by decide) (h rfl)
  | _ => exact closed_of_isWord (by decide)

/-! ### Lists of texts -/

theorem uses_intercalate {sep : String} (hsep : isJoint sep = true) (texts : List String)
    (h : ∀ s ∈ texts, Uses w P s) : Uses w P (sep.intercalate texts) := by
  induction texts with
  | nil => exact uses_of_isPlainText rfl
  | cons s texts ih =>
    rw [List.forall_mem_cons] at h
    cases texts with
    | nil =>
      rw [String.intercalate_singleton]
      exact h.1
    | cons t texts =>
      rw [String.intercalate_cons_cons]
      exact (h.1.joint hsep).append_uses (ih h.2)

theorem sealed_join {texts : List String} (h : ∀ s ∈ texts, Sealed w P s) :
    Sealed w P (String.join texts) := by
  induction texts with
  | nil => exact sealed_of_isFiller rfl
  | cons s texts ih =>
    rw [List.forall_mem_cons] at h
    rw [String.join_cons]
    exact h.1.append (ih h.2)

end

/-! ### Expressions -/

namespace Expr

variable {w : White} {P : String → Prop}

/-- The node is printed with plain names, and with names of the library that have the property. -/
def Names (P : String → Prop) : Expr → Prop
  | .var name _ => isPlainText name = true
  | .call function _ _ =>
    isPlainText function = true ∨ ∃ x, function = "std::" ++ x ∧ isWord x = true ∧ P x
  | .cast _ target _ => target = .string → P "string"
  | _ => True

theorem uses_enclose {s : String} (delimited : Bool) (h : Uses w P s) :
    Uses w P (enclose delimited s) := by
  unfold enclose
  split
  · exact h
  · have hopen : Sealed w P "(" := sealed_of_isFiller (by decide)
    exact ((hopen.append_uses h).joint (by decide)).toUses

theorem isJoint_symbol (op : BinaryOp) : isJoint (" " ++ op.symbol ++ " ") = true := by
  cases op <;> decide

theorem isFiller_symbol (op : UnaryOp) : isFiller op.symbol = true := by
  cases op <;> decide

mutual

theorem uses_textIn (delimited : Bool) : (e : Expr) → e.Each (Names P) →
    Uses w P (e.textIn delimited)
  | .int value _, _ => uses_int value.toInt
  | .float value _, _ => uses_double value
  | .bool value _, _ => by
    rw [textIn]
    cases value <;> exact uses_of_isPlainText (by decide)
  | .string value _, _ => (closed_literal value).toUses
  | .var name _, h => uses_of_isPlainText (each_var.1 h)
  | .binary op left right _, h => by
    obtain ⟨-, hleft, hright⟩ := each_binary.1 h
    have hsplit : left.textIn false ++ " " ++ op.symbol ++ " " ++ right.textIn false =
        left.textIn false ++ (" " ++ op.symbol ++ " ") ++ right.textIn false := by
      simp only [String.append_assoc]
    rw [textIn, hsplit]
    exact uses_enclose delimited (((uses_textIn false left hleft).joint
      (isJoint_symbol op)).append_uses (uses_textIn false right hright))
  | .unary op operand _, h => by
    have hsymbol : Sealed w P op.symbol := sealed_of_isFiller (isFiller_symbol op)
    rw [textIn]
    exact uses_enclose delimited
      (hsymbol.append_uses (uses_textIn false operand (each_unary.1 h).2))
  | .call function arguments _, h => by
    obtain ⟨hfunction, harguments⟩ := each_call.1 h
    have hname : Uses w P function := by
      rcases hfunction with hword | ⟨x, rfl, hx, hP⟩
      · exact uses_of_isPlainText hword
      · exact (closed_qualified hx hP).toUses
    have htexts : Uses w P (", ".intercalate (argumentTexts arguments)) :=
      uses_intercalate (by decide) _ (uses_argumentTexts arguments harguments)
    rw [textIn]
    exact (((hname.joint (by decide)).append_uses htexts).joint (by decide)).toUses
  | .cast operand target _, h => by
    obtain ⟨htarget, hoperand⟩ := each_cast.1 h
    have hopen : Sealed w P "static_cast<" := sealed_of_isFiller (by decide)
    have hname : Closed w P target.cppName := closed_cppName target htarget
    rw [textIn]
    exact ((((hopen.append_uses hname.toUses).joint (by decide)).append_uses
      (uses_textIn true operand hoperand)).joint (by decide)).toUses

theorem uses_argumentTexts : (es : List Expr) → (∀ e ∈ es, e.Each (Names P)) →
    ∀ s ∈ argumentTexts es, Uses w P s
  | [], _ => fun _ hs => absurd hs List.not_mem_nil
  | e :: es, h => by
    rw [List.forall_mem_cons] at h
    rw [argumentTexts, List.forall_mem_cons]
    exact ⟨uses_textIn true e h.1, uses_argumentTexts es h.2⟩

end

theorem uses_printed {e : Expr} (h : e.Each (Names P)) : Uses w P e.printed := by
  have htext : Uses w P e.text := uses_textIn false e h
  unfold printed
  split
  · have hopen : Sealed w P "(" := sealed_of_isFiller (by decide)
    exact ((hopen.append_uses htext).joint (by decide)).toUses
  · exact htext

end Expr

/-! ### Statements -/

section

variable {w : White} {P : String → Prop}

/-- A text of which only white space is code. -/
theorem sealed_of_blanks {s : String} (hsplice : hasTrailingBackslash s.toList = false)
    (hends : (scan .code s.toList).2 = .code)
    (hblanks : ∀ b ∈ (scan .code s.toList).1, b = ' ' ∨ b = '\n') : Sealed w P s := by
  have hcode : ∀ b ∈ outside .code s.toList, b = ' ' ∨ b = '\n' :=
    fun b hb => hblanks b ((outside_sublist _ _).subset hb)
  refine ⟨closed_of_unspliced hsplice hends fun x hx => ?_, ?_⟩
  · have := hcode ':' (hx.colons.subset (by simp))
    simp at this
  · rw [code_of_unspliced w hsplice]
    cases hlast : (outside .code s.toList).getLast? with
    | none => rfl
    | some b => rcases hcode b (List.mem_of_getLast? hlast) with rfl | rfl <;> rfl

theorem sealed_indentation (level : Nat) :
    Sealed w P (String.ofList (List.replicate (4 * level) ' ')) := by
  refine sealed_of_blanks (hasTrailingBackslash_of_notMem fun hmem => ?_) ?_ fun b hb => ?_
  · rw [String.toList_ofList] at hmem
    cases List.eq_of_mem_replicate hmem
  · rw [String.toList_ofList, scan_indentation]
  · rw [String.toList_ofList, scan_indentation] at hb
    exact .inl (List.eq_of_mem_replicate hb)

/-- A line ends with a separator. -/
theorem sealed_line (level : Nat) {s : String} (h : Closed w P s) : Sealed w P (line level s) :=
  ((sealed_indentation level).append_closed h).gap (by decide)

theorem sealed_fixedLine (level : Nat) {s : String} (h : isFiller s = true) :
    Sealed w P (line level s) :=
  sealed_line level (sealed_of_isFiller h).toClosed

/-- Of a comment only white space is code. -/
theorem sealed_comment (level : Nat) {c : Comment} (h : c.isLinewise = true) :
    Sealed w P ((Stmt.comment c).text level) := by
  have hinert := inert_textLines level h
  rw [← toList_text_comment] at hinert
  obtain ⟨blanks, hscan, hblanks⟩ := hinert.scanned
  refine sealed_of_blanks hinert.unspliced (by rw [hscan]) fun b hb => ?_
  rw [hscan, List.mem_append, List.mem_singleton] at hb
  exact hb.elim (hblanks b) .inr

theorem closed_loopHeader {counter : String} {start stop : Expr} (step : Int64)
    (hcounter : isPlainText counter = true) (hstart : start.Each (Expr.Names P))
    (hstop : stop.Each (Expr.Names P)) : Closed w P (loopHeader counter start stop step) := by
  have hfor : Sealed w P "for (int " := sealed_of_isFiller (by decide)
  have hname : Uses w P counter := uses_of_isPlainText hcounter
  have hsize : Uses w P (toString step.toInt.natAbs) := uses_int step.toInt.natAbs
  have hhead : Uses w P ("for (int " ++ counter ++ " = " ++ start.bare ++ "; " ++ counter) :=
    ((((hfor.append_uses hname).joint (by decide)).append_uses
      (Expr.uses_textIn true start hstart)).joint (by decide)).append_uses hname
  have hbound : Uses w P stop.text := Expr.uses_textIn false stop hstop
  unfold loopHeader
  split
  · exact ((((((hhead.joint (by decide)).append_uses hbound).joint (by decide)).append_uses
      hname).joint (by decide)).append_uses hsize).joint (by decide) |>.toClosed
  · exact ((((((hhead.joint (by decide)).append_uses hbound).joint (by decide)).append_uses
      hname).joint (by decide)).append_uses hsize).joint (by decide) |>.toClosed

/-- The values follow what is written to, each behind a separator. -/
theorem uses_append_printedValues {s : String} (hs : Uses w P s) {es : List Expr}
    (h : ∀ e ∈ es, e.Each (Expr.Names P)) : Uses w P (s ++ printedValues es) := by
  have hvalue : ∀ t ∈ es.map fun e => " << " ++ e.printed, Uses w P t := by
    rw [List.forall_mem_map]
    intro e he
    have hshift : Sealed w P " << " := sealed_of_isFiller (by decide)
    exact hshift.append_uses (Expr.uses_printed (h e he))
  cases es with
  | nil =>
    rw [printedValues, List.map_nil, String.intercalate_nil, String.append_empty]
    exact hs
  | cons e es =>
    rw [List.forall_mem_cons] at h
    rw [List.map_cons, List.forall_mem_cons] at hvalue
    rw [printedValues, List.map_cons, String.intercalate_cons_append, ← String.append_assoc]
    exact (hs.joint (by decide)).append_uses (uses_intercalate (by decide) _
      (List.forall_mem_cons.2 ⟨Expr.uses_printed h.1, hvalue.2⟩))

namespace Stmt

/-- The statement itself is printed with plain names, and with names of the library that have the
property. -/
def Names (P : String → Prop) : Stmt → Prop
  | .decl name type _ => isPlainText name = true ∧ (type = .string → P "string")
  | .assign name _ | .forLoop name _ _ _ _ => isPlainText name = true
  | .print _ => P "cout" ∧ P "endl"
  | .comment c => c.isLinewise = true
  | _ => True

theorem closed_print {es : List Expr} (hcout : P "cout") (hendl : P "endl")
    (h : ∀ e ∈ es, e.Each (Expr.Names P)) :
    Closed w P ("std::cout" ++ printedValues es ++ " << std::endl;") := by
  have hstream : Closed w P ("std::" ++ "cout") := closed_qualified (by decide) hcout
  have hend : Closed w P ("std::" ++ "endl") := closed_qualified (by decide) hendl
  have hsplit : " << std::endl;" = " << " ++ ("std::" ++ "endl") ++ ";" := by decide
  rw [hsplit, ← String.append_assoc, ← String.append_assoc]
  exact ((((uses_append_printedValues hstream.toUses h).joint (by decide)).append_uses
    hend.toUses).joint (by decide)).toClosed

/-- A block in braces. -/
theorem sealed_braces (level : Nat) {head body : String} (hhead : Closed w P head)
    (hbody : Sealed w P body) :
    Sealed w P (line level head ++ line level "\x7b" ++ body ++ line level "\x7d") := by
  have hopen : Sealed w P (line level "\x7b") := sealed_fixedLine level (by decide)
  have hclose : Sealed w P (line level "\x7d") := sealed_fixedLine level (by decide)
  exact (((sealed_line level hhead).append hopen).append hbody).append hclose

mutual

theorem sealed_text (level : Nat) : (s : Stmt) → (∀ t ∈ s.nested, t.Names P) →
    (∀ n ∈ s.exprNodes, n.Names P) → Sealed w P (s.text level)
  | .decl name type value, hs, he => by
    obtain ⟨hname, htype⟩ := hs _ (mem_nested_self _)
    have hhead : Uses w P (type.cppName ++ " " ++ name) :=
      ((closed_cppName type htype).gap (by decide)).append_uses (uses_of_isPlainText hname)
    rw [text]
    exact sealed_line level
      (((hhead.joint (by decide)).append_uses (Expr.uses_textIn true value he)).joint
        (by decide)).toClosed
  | .assign name value, hs, he => by
    have hname : Uses w P name := uses_of_isPlainText (hs _ (mem_nested_self _))
    rw [text]
    exact sealed_line level
      (((hname.joint (by decide)).append_uses (Expr.uses_textIn true value he)).joint
        (by decide)).toClosed
  | .expr value, _, he => by
    rw [text]
    exact sealed_line level ((Expr.uses_textIn true value he).joint (by decide)).toClosed
  | .print values, hs, he => by
    obtain ⟨hcout, hendl⟩ := hs _ (mem_nested_self _)
    rw [exprNodes, Expr.nodesList_eq] at he
    rw [text]
    refine sealed_line level (closed_print hcout hendl fun e hmem n hn => ?_)
    exact he n (List.mem_flatMap.2 ⟨e, hmem, hn⟩)
  | .ifElse branches orelse, hs, he => by
    rw [nested, List.forall_mem_cons, List.forall_mem_append] at hs
    rw [exprNodes, List.forall_mem_append] at he
    rw [text]
    exact (sealed_branchesText level (uses_of_isPlainText (by decide)) branches hs.2.1 he.1).append
      (sealed_elseText level orelse hs.2.2 he.2)
  | .whileLoop condition body, hs, he => by
    rw [nested, List.forall_mem_cons] at hs
    rw [exprNodes, List.forall_mem_append] at he
    have hopen : Sealed w P "while (" := sealed_of_isFiller (by decide)
    rw [text]
    exact sealed_braces level ((hopen.append_uses (Expr.uses_textIn true condition he.1)).joint
      (by decide)).toClosed (sealed_blockText (level + 1) body hs.2 he.2)
  | .forLoop counter start stop step body, hs, he => by
    rw [nested, List.forall_mem_cons] at hs
    rw [exprNodes, List.forall_mem_append, List.forall_mem_append] at he
    rw [text]
    exact sealed_braces level (closed_loopHeader step hs.1 he.1.1 he.1.2)
      (sealed_blockText (level + 1) body hs.2 he.2)
  | .ret none, _, _ => sealed_fixedLine level (by decide)
  | .ret (some value), _, he => by
    have hopen : Sealed w P "return " := sealed_of_isFiller (by decide)
    rw [text]
    exact sealed_line level
      ((hopen.append_uses (Expr.uses_textIn true value he)).joint (by decide)).toClosed
  | .brk, _, _ => sealed_fixedLine level (by decide)
  | .cont, _, _ => sealed_fixedLine level (by decide)
  | .comment c, hs, _ => sealed_comment level (hs _ (mem_nested_self _))

theorem sealed_blockText (level : Nat) : (b : List Stmt) → (∀ t ∈ nestedBlock b, t.Names P) →
    (∀ n ∈ exprNodesBlock b, n.Names P) → Sealed w P (blockText level b)
  | [], _, _ => sealed_of_isFiller rfl
  | s :: ss, hs, he => by
    rw [nestedBlock, List.forall_mem_append] at hs
    rw [exprNodesBlock, List.forall_mem_append] at he
    rw [blockText]
    exact (sealed_text level s hs.1 he.1).append (sealed_blockText level ss hs.2 he.2)

theorem sealed_branchesText (level : Nat) {keyword : String} (hkeyword : Uses w P keyword) :
    (branches : List (Expr × List Stmt)) → (∀ t ∈ nestedBranches branches, t.Names P) →
    (∀ n ∈ exprNodesBranches branches, n.Names P) →
    Sealed w P (branchesText level keyword branches)
  | [], _, _ => sealed_of_isFiller rfl
  | (condition, body) :: branches, hs, he => by
    rw [nestedBranches, List.forall_mem_append] at hs
    rw [exprNodesBranches, List.forall_mem_append, List.forall_mem_append] at he
    have hhead : Closed w P (keyword ++ " (" ++ condition.bare ++ ")") :=
      (((hkeyword.joint (by decide)).append_uses
        (Expr.uses_textIn true condition he.1.1)).joint (by decide)).toClosed
    rw [branchesText]
    exact (sealed_braces level hhead (sealed_blockText (level + 1) body hs.1 he.1.2)).append
      (sealed_branchesText level (uses_of_isPlainText (by decide)) branches hs.2 he.2)

theorem sealed_elseText (level : Nat) : (orelse : Option (List Stmt)) →
    (∀ t ∈ nestedElse orelse, t.Names P) → (∀ n ∈ exprNodesElse orelse, n.Names P) →
    Sealed w P (elseText level orelse)
  | none, _, _ => sealed_of_isFiller rfl
  | some body, hs, he => by
    rw [elseText]
    exact sealed_braces level (closed_of_isWord (by decide))
      (sealed_blockText (level + 1) body hs he)

end

end Stmt

/-! ### Programs -/

theorem sealed_bodyText {body : List Stmt} (hs : ∀ t ∈ Stmt.nestedBlock body, t.Names P)
    (he : ∀ n ∈ Stmt.exprNodesBlock body, n.Names P) : Sealed w P (bodyText body) := by
  have hopen : Sealed w P (line 0 "\x7b") := sealed_fixedLine 0 (by decide)
  have hclose : Sealed w P (line 0 "\x7d") := sealed_fixedLine 0 (by decide)
  exact (hopen.append (Stmt.sealed_blockText 1 body hs he)).append hclose

/-- The type of a parameter is printed as a word or a type. -/
def ParamType.Names (P : String → Prop) : ParamType → Prop
  | .concrete t => t = .string → P "string"
  | .generic name => isWord name = true

theorem ParamType.Names.closed_cppName {type : ParamType} (h : type.Names P) :
    Closed w P type.cppName := by
  cases type with
  | concrete t => exact Target.closed_cppName t h
  | generic name => exact closed_of_isWord h

/-- A parameter is printed with plain names, and with names of the library that have the
property. -/
structure Param.Names (P : String → Prop) (p : Param) : Prop where
  name : isPlainText p.name = true
  type : p.type.Names P
  default : ∀ e, p.default = some e → e.Each (Expr.Names P)

theorem Param.uses_text (defaults : Bool) {p : Param} (h : p.Names P) :
    Uses w P (p.text defaults) := by
  have hhead : Uses w P (p.type.cppName ++ " " ++ p.name) :=
    (h.type.closed_cppName.gap (by decide)).append_uses (uses_of_isPlainText h.name)
  unfold text
  split
  · rename_i e he
    split
    · exact (hhead.joint (by decide)).append_uses (Expr.uses_textIn true e (h.default e he))
    · exact hhead
  · exact hhead

/-- A function is printed with plain names, and with names of the library that have the
property. -/
structure Function.Names (P : String → Prop) (f : Function) : Prop where
  name : isPlainText f.name = true
  returns : f.returns = .string → P "string"
  params : ∀ p ∈ f.params, p.Names P
  stmts : ∀ t ∈ Stmt.nestedBlock f.body, t.Names P
  nodes : ∀ n ∈ Stmt.exprNodesBlock f.body, n.Names P

namespace Function

variable {f : Function} (h : f.Names P)
include h

theorem closed_head (defaults : Bool) : Closed w P (f.head defaults) := by
  have hparams : Uses w P (", ".intercalate (f.params.map (Param.text defaults))) := by
    refine uses_intercalate (by decide) _ ?_
    rw [List.forall_mem_map]
    exact fun p hp => Param.uses_text defaults (h.params p hp)
  have hname : Uses w P (f.returns.cppName ++ " " ++ f.name) :=
    ((closed_cppName f.returns h.returns).gap (by decide)).append_uses (uses_of_isPlainText h.name)
  exact (((hname.joint (by decide)).append_uses hparams).joint (by decide)).toClosed

theorem isWord_of_mem_typeParams : ∀ name ∈ f.typeParams, isWord name = true := by
  intro name hname
  obtain ⟨p, hp, hp'⟩ := List.mem_filterMap.1 hname
  have htype := (h.params p hp).type
  cases hcase : p.type with
  | concrete t =>
    rw [hcase] at hp'
    cases hp'
  | generic g =>
    rw [hcase] at hp' htype
    obtain rfl := Option.some.inj hp'
    exact htype

theorem sealed_templateLine : Sealed w P f.templateLine := by
  unfold templateLine
  split
  · exact sealed_of_isFiller rfl
  · have hopen : Sealed w P "template <" := sealed_of_isFiller (by decide)
    have htypename : Sealed w P "typename " := sealed_of_isFiller (by decide)
    have hnames : Uses w P (", ".intercalate (f.typeParams.map ("typename " ++ ·))) := by
      refine uses_intercalate (by decide) _ ?_
      rw [List.forall_mem_map]
      exact fun name hname =>
        htypename.append_uses (closed_of_isWord (isWord_of_mem_typeParams h name hname)).toUses
    exact sealed_line 0 ((hopen.append_uses hnames).joint (by decide)).toClosed

theorem sealed_prototype : Sealed w P f.prototype :=
  (sealed_templateLine h).append
    (sealed_line 0 ((closed_head h true).toUses.joint (by decide)).toClosed)

theorem sealed_text : Sealed w P f.text :=
  ((sealed_templateLine h).append (sealed_line 0 (closed_head h false))).append
    (sealed_bodyText h.stmts h.nodes)

end Function

namespace Program

/-- A program is printed with plain names, and with names of the library that have the property. -/
structure Names (P : String → Prop) (p : Program) : Prop where
  functions : ∀ f ∈ p.functions, f.Names P
  stmts : ∀ t ∈ Stmt.nestedBlock p.mainBody, t.Names P
  nodes : ∀ n ∈ Stmt.exprNodesBlock p.mainBody, n.Names P

theorem sealed_includeLines (p : Program) : Sealed w P p.includeLines := by
  have hfeed : Sealed w P "\n" := sealed_of_isFiller (by decide)
  unfold includeLines
  dsimp only
  split
  · exact sealed_of_isFiller rfl
  · refine Sealed.append (sealed_join ?_) hfeed
    rw [List.forall_mem_map]
    intro i hi
    cases i <;> exact sealed_of_isFiller (by decide)

theorem sealed_functionLines {p : Program} (h : p.Names P) : Sealed w P p.functionLines := by
  have hfeed : Sealed w P "\n" := sealed_of_isFiller (by decide)
  unfold functionLines
  split
  · exact sealed_of_isFiller rfl
  · refine ((sealed_join ?_).append hfeed).append (sealed_join ?_)
    · rw [List.forall_mem_map]
      exact fun f hf => Function.sealed_prototype (h.functions f hf)
    · rw [List.forall_mem_map]
      exact fun f hf => (Function.sealed_text (h.functions f hf)).append hfeed

theorem sealed_text {p : Program} (h : p.Names P) : Sealed w P p.text := by
  have hmain : Sealed w P (line 0 "int main(int argc, char **argv)") :=
    sealed_of_isFiller (by decide)
  exact (((sealed_includeLines p).append (sealed_functionLines h)).append hmain).append
    (sealed_bodyText h.stmts h.nodes)

/-- **The names of the library in the code of a program come from its nodes.** -/
theorem name_of_mentions {p : Program} (h : p.Names P) {white : Char → Bool}
    (hwhite : ∀ c, white c = true → Text.isBlank c = true) {x : String}
    (hx : Mentions (code white p.text.toList) x) : P x := by
  have htext : Sealed ⟨white, hwhite⟩ P p.text := sealed_text h
  exact htext.names x hx

end Program

end

end StaticScript.Target
