import StaticScript.Target.Printer
import StaticScript.Proofs.Decimal.Shortest
import StaticScript.Proofs.Target.Literal
import StaticScript.Proofs.Target.Tree
import StaticScript.Proofs.Text.Cutting

/-!
# The text of an expression determines it

Two expressions with the same text are the same expression, apart from the types that their nodes
carry (`Expr.text_eq_iff_untyped`).  This asks that the names in them are identifiers and that the
numbers in them have no sign (`Expr.Legible`): the variable `a + b` would be printed as a sum, the
number `-1` as the negation of `1`.

An expression that stands by itself begins with a word, perhaps an empty one.  The word ends where
its characters end, and with the character behind it tells the kind of the expression
(`Expr.start_inj`).  What follows is cut into its parts in the same way.  For this to be an
induction it is stated for texts that go on behind the expression: with an operator, a bracket or a
comma behind one that stands by itself (`Expr.Reads`), with a bracket or a comma only behind one
that its surroundings delimit (`Expr.ReadsBare`).
-/

namespace StaticScript.Target

/-! ### Operators and types -/

theorem injective_of_find? {α : Type} {text : α → String} (all : List α)
    (hfind : ∀ a, all.find? (text · == text a) = some a) : Function.Injective text := by
  intro a b h
  exact Option.some.inj ((hfind a).symm.trans (h ▸ hfind b))

theorem BinaryOp.symbol_injective : Function.Injective BinaryOp.symbol := by
  refine injective_of_find? BinaryOp.all fun op => ?_
  cases op <;> decide

theorem UnaryOp.symbol_injective : Function.Injective UnaryOp.symbol := by
  refine injective_of_find? UnaryOp.all fun op => ?_
  cases op <;> decide

theorem cppName_injective : Function.Injective StaticType.cppName := by
  refine injective_of_find? StaticType.all fun t => ?_
  cases t <;> decide

/-! ### Names -/

/-- The characters of identifiers.  Beyond ASCII all characters are admitted. -/
def isIdentifierChar (c : Char) : Bool := c.isAlphanum || c == '_' || decide (0x80 ≤ c.toNat)

/-- The text is an identifier that has no meaning of its own in expressions. -/
def isName (s : String) : Bool :=
  s.toList.all isIdentifierChar && s.toList.head?.any (!·.isDigit) &&
    !(["true", "false", "static_cast"].contains s)

/-- A name, perhaps behind others that qualify it. -/
inductive QualifiedName : String → Prop
  | name {s : String} (h : isName s = true) : QualifiedName s
  | qualified {q s : String} (hq : q = "" ∨ isName q = true) (h : QualifiedName s) :
      QualifiedName (q ++ "::" ++ s)

namespace Expr

/-- The names in a node are identifiers and the numbers have no sign. -/
def LegibleNode : Expr → Prop
  | .int n _ => 0 ≤ n
  | .float x _ => x.negative = false
  | .var name _ => isName name = true
  | .call function _ _ => QualifiedName function
  | _ => True

/-- All names in an expression are identifiers and all numbers have no sign. -/
def Legible (e : Expr) : Prop := e.Each LegibleNode

mutual

/-- The expression without the types of its nodes. -/
def untyped : Expr → Expr
  | .int n _ => .int n .unresolved
  | .float x _ => .float x .unresolved
  | .bool b _ => .bool b .unresolved
  | .string s _ => .string s .unresolved
  | .var name _ => .var name .unresolved
  | .binary op left right _ => .binary op left.untyped right.untyped .unresolved
  | .unary op operand _ => .unary op operand.untyped .unresolved
  | .call function arguments _ => .call function (untypedList arguments) .unresolved
  | .cast operand target _ => .cast operand.untyped target .unresolved

/-- The expressions without the types of their nodes. -/
def untypedList : List Expr → List Expr
  | [] => []
  | e :: es => e.untyped :: untypedList es

end

/-! ### Kinds of expressions -/

/-- The kinds of expressions, as far as the beginnings of their texts tell them apart. -/
inductive Kind where
  | number
  | fraction
  | truth
  | name
  | quoted
  | compound
  | call
  | cast
deriving DecidableEq

/-- The kind of an expression. -/
def kind : Expr → Kind
  | .int .. => .number
  | .float .. => .fraction
  | .bool .. => .truth
  | .string .. => .quoted
  | .var .. => .name
  | .binary .. | .unary .. => .compound
  | .call .. => .call
  | .cast .. => .cast

/-- The kind of an expression that begins with a word, before a character or the end. -/
def Kind.ofStart (word : String) : Option Char → Kind
  | some '"' => .quoted
  | some '<' => .cast
  | some '(' => if word = "" then .compound else .call
  | _ =>
    if word = "true" ∨ word = "false" then .truth
    else if word.toList.all Char.isDigit then .number
    else if word.toList.head?.any Char.isDigit then .fraction
    else .name

/-- The character that follows the first word of an expression of a kind, if the word is not all of
it. -/
def Kind.next : Kind → Option Char
  | .number | .fraction | .truth | .name => none
  | .quoted => some '"'
  | .compound | .call => some '('
  | .cast => some '<'

/-- The word that the text of an expression begins with. -/
def word : Expr → String
  | .int n _ => toString n.toInt
  | .float x _ => x.text
  | .bool b _ => if b then "true" else "false"
  | .var name _ => name
  | .call function _ _ => function
  | .cast .. => "static_cast"
  | .string .. | .binary .. | .unary .. => ""

/-- What follows the first word in the text of an expression. -/
def tail (e : Expr) : String :=
  match e with
  | .int .. | .float .. | .bool .. | .var .. => ""
  | .string s _ => literal s
  | .binary .. | .unary .. => "(" ++ e.bare ++ ")"
  | .call _ arguments _ => "(" ++ ", ".intercalate (argumentTexts arguments) ++ ")"
  | .cast operand target _ => "<" ++ target.cppName ++ ">(" ++ operand.bare ++ ")"

theorem text_eq (e : Expr) : e.text = e.word ++ e.tail := by
  cases e with
  | int | float | bool | var => exact String.append_empty.symm
  | string | binary | unary => exact String.empty_append.symm
  | call f es t =>
    change f ++ "(" ++ ", ".intercalate (argumentTexts es) ++ ")" = f ++ ("(" ++ _ ++ ")")
    simp only [String.append_assoc]
  | cast e u t =>
    have hcast : "static_cast<" = "static_cast" ++ "<" := by decide
    change "static_cast<" ++ u.cppName ++ ">(" ++ e.bare ++ ")" =
      "static_cast" ++ ("<" ++ u.cppName ++ ">(" ++ e.bare ++ ")")
    simp only [hcast, String.append_assoc]

end Expr

/-! ### Words -/

/-- The characters of words: those of names, of qualified names and of numbers. -/
def isWordChar (c : Char) : Bool := isIdentifierChar c || c == ':' || c == '.' || c == '-'

theorem isWordChar_of_identifier {c : Char} (h : isIdentifierChar c = true) :
    isWordChar c = true := by
  simp [isWordChar, h]

theorem isWordChar_of_digit {c : Char} (h : c.isDigit = true) : isWordChar c = true := by
  simp [isWordChar, isIdentifierChar, Char.isAlphanum, h]

theorem isWordChar_of_numeral {c : Char} (h : Double.isNumeral c = true) :
    isWordChar c = true := by
  simp only [Double.isNumeral, Bool.or_eq_true, beq_iff_eq] at h
  rcases h with ((h | rfl) | rfl) | rfl
  · exact isWordChar_of_digit h
  · rfl
  · rfl
  · rfl

theorem isName_iff {s : String} : isName s = true ↔ (∀ c ∈ s.toList, isIdentifierChar c = true) ∧
    (∃ c ∈ s.toList.head?, c.isDigit = false) ∧
    s ≠ "true" ∧ s ≠ "false" ∧ s ≠ "static_cast" := by
  simp only [isName, Bool.and_eq_true, List.all_eq_true, Option.any_eq_true, Bool.not_eq_true',
    List.contains_eq_mem, List.mem_cons, List.not_mem_nil, or_false, decide_eq_false_iff_not,
    not_or, and_assoc, Option.mem_def]

theorem QualifiedName.chars {s : String} (h : QualifiedName s) :
    ∀ c ∈ s.toList, isIdentifierChar c = true ∨ c = ':' := by
  have hname : ∀ {q : String}, isName q = true →
      ∀ c ∈ q.toList, isIdentifierChar c = true ∨ c = ':' :=
    fun hq c hc => .inl ((isName_iff.1 hq).1 c hc)
  have hcolons : ∀ c ∈ "::".toList, isIdentifierChar c = true ∨ c = ':' := by
    rw [show "::".toList = [':', ':'] by decide]
    simp
  induction h with
  | name hs => exact hname hs
  | qualified hq _ ih =>
    simp only [String.toList_append, List.forall_mem_append]
    refine ⟨⟨?_, hcolons⟩, ih⟩
    rcases hq with rfl | hq
    · exact fun c hc => absurd hc List.not_mem_nil
    · exact hname hq

theorem QualifiedName.ne_empty {s : String} (h : QualifiedName s) : s ≠ "" := by
  induction h with
  | name hs =>
    rintro rfl
    obtain ⟨-, ⟨c, hc, -⟩, -⟩ := isName_iff.1 hs
    cases hc
  | qualified _ _ ih =>
    intro heq
    exact ih (String.append_eq_empty_iff.1 heq).2

/-- What follows an expression ends its last word: an operator, a bracket, a comma or the end. -/
def Stops (r : List Char) : Prop := ∀ c ∈ r.head?, c = ' ' ∨ c = ')' ∨ c = ','

namespace Expr

/-- A number without a sign is its digits. -/
theorem isDigit_of_mem_toString {n : Int64} (h : 0 ≤ n) :
    ∀ c ∈ (toString n.toInt).toList, c.isDigit = true := by
  have hn : ¬ n.toInt < 0 := by
    rw [Int64.le_iff_toInt_le] at h
    exact Int.not_lt.2 h
  rw [Decimal.toList_toString, if_neg hn]
  exact Decimal.isDigit_of_mem_toDigits

theorem toString_ne_nil (z : Int) : (toString z).toList ≠ [] := by
  rw [Decimal.toList_toString]
  exact List.append_ne_nil_of_right_ne_nil _ Nat.toDigits_ne_nil

theorem toList_text_float {x : Double} (h : x.negative = false) :
    x.text.toList = x.unsigned := by
  rw [Double.toList_text, h]
  rfl

theorem isWordChar_word {e : Expr} (he : e.LegibleNode) :
    ∀ c ∈ e.word.toList, isWordChar c = true := by
  cases e with
  | int n t => exact fun c hc => isWordChar_of_digit (isDigit_of_mem_toString he c hc)
  | float x t =>
    intro c hc
    rw [word, toList_text_float he] at hc
    exact isWordChar_of_numeral ((Double.unsigned_form x).2.1 c hc)
  | bool b t =>
    have hwords : ∀ b : Bool, (if b then "true" else "false").toList.all isWordChar = true := by
      decide
    exact List.all_eq_true.1 (hwords b)
  | var name t => exact fun c hc => isWordChar_of_identifier ((isName_iff.1 he).1 c hc)
  | call f es t =>
    intro c hc
    rcases QualifiedName.chars he c hc with hc | rfl
    · exact isWordChar_of_identifier hc
    · rfl
  | cast e u t =>
    have hword : "static_cast".toList.all isWordChar = true := by decide
    exact List.all_eq_true.1 hword
  | string | binary | unary => exact fun c hc => absurd hc List.not_mem_nil

/-- A word that stands alone is a truth value, a number or a name. -/
theorem ofStart_of_stops {r : List Char} (hr : Stops r) (w : String) :
    Kind.ofStart w r.head? = if w = "true" ∨ w = "false" then .truth
      else if w.toList.all Char.isDigit then .number
      else if w.toList.head?.any Char.isDigit then .fraction
      else .name := by
  cases r with
  | nil => rfl
  | cons c cs =>
    rcases hr c rfl with rfl | rfl | rfl <;> rfl

theorem toList_bracketed (s : String) :
    ("(" ++ s ++ ")").toList = '(' :: (s.toList ++ [')']) := by
  have hopen : "(".toList = ['('] := by decide
  have hclose : ")".toList = [')'] := by decide
  simp only [String.toList_append, hopen, hclose, List.cons_append, List.nil_append]

theorem tail_start (e : Expr) (r : List Char) :
    (e.tail.toList ++ r).head? = e.kind.next.or r.head? := by
  have hangle : "<".toList = ['<'] := by decide
  cases e with
  | int | float | bool | var => rfl
  | string s t =>
    change ((literal s).toList ++ r).head? = some '"'
    rw [toList_literal]
    rfl
  | binary | unary | call =>
    change (("(" ++ _ ++ ")").toList ++ r).head? = some '('
    rw [toList_bracketed, List.cons_append, List.head?_cons]
  | cast e u t =>
    change (("<" ++ _ ++ ">(" ++ _ ++ ")").toList ++ r).head? = some '<'
    simp only [String.toList_append, hangle, List.cons_append, List.head?_cons]

/-- A word that begins with a digit is not `true` or `false`. -/
theorem ne_truth_of_digit {s : String} {c : Char} {cs : List Char} (hs : s.toList = c :: cs)
    (hc : c.isDigit = true) : ¬ (s = "true" ∨ s = "false") := by
  have htrue : "true".toList = ['t', 'r', 'u', 'e'] := by decide
  have hfalse : "false".toList = ['f', 'a', 'l', 's', 'e'] := by decide
  rintro (rfl | rfl)
  · rw [htrue] at hs
    obtain ⟨rfl, -⟩ := List.cons.inj hs
    cases hc
  · rw [hfalse] at hs
    obtain ⟨rfl, -⟩ := List.cons.inj hs
    cases hc

/-- **The kind of an expression is told by its first word and the character behind it.** -/
theorem ofStart_word {e : Expr} (he : e.LegibleNode) {r : List Char} (hr : Stops r) :
    Kind.ofStart e.word (e.tail.toList ++ r).head? = e.kind := by
  rw [tail_start]
  -- What is only a word has to get past the tests for the kinds before its own.
  cases e with
  | int n t =>
    have hdigits := isDigit_of_mem_toString he
    obtain ⟨c, cs, hcs⟩ := List.exists_cons_of_ne_nil (toString_ne_nil n.toInt)
    have htruth := ne_truth_of_digit hcs (hdigits c (hcs ▸ List.mem_cons_self))
    exact (ofStart_of_stops hr _).trans
      ((if_neg htruth).trans (if_pos (List.all_eq_true.2 hdigits)))
  | float x t =>
    obtain ⟨⟨c, cs, hcs, hdigit⟩, -, d, hd, hother⟩ := Double.unsigned_form x
    rw [← toList_text_float he] at hcs hd
    have hall : ¬ x.text.toList.all Char.isDigit = true := by
      intro hall
      rw [List.all_eq_true.1 hall d hd] at hother
      cases hother
    have hhead : x.text.toList.head?.any Char.isDigit = true := by
      rw [hcs]
      exact hdigit
    exact (ofStart_of_stops hr _).trans
      ((if_neg (ne_truth_of_digit hcs hdigit)).trans ((if_neg hall).trans (if_pos hhead)))
  | bool b t =>
    refine (ofStart_of_stops hr _).trans (if_pos ?_)
    cases b
    · exact .inr rfl
    · exact .inl rfl
  | var name t =>
    obtain ⟨-, ⟨c, hc, hdigit⟩, htrue, hfalse, -⟩ := isName_iff.1 he
    have hall : ¬ name.toList.all Char.isDigit = true := by
      intro hall
      rw [List.all_eq_true.1 hall c (List.mem_of_mem_head? hc)] at hdigit
      cases hdigit
    have hhead : ¬ name.toList.head?.any Char.isDigit = true := by
      rw [Option.mem_def.1 hc, Option.any_some, hdigit]
      exact Bool.false_ne_true
    exact (ofStart_of_stops hr _).trans
      ((if_neg (not_or.2 ⟨htrue, hfalse⟩)).trans ((if_neg hall).trans (if_neg hhead)))
  | call f es t => exact if_neg (QualifiedName.ne_empty he)
  | cast | string | binary | unary => rfl

theorem not_isWordChar_tail (e : Expr) {r : List Char} (hr : Stops r) :
    ∀ c ∈ (e.tail.toList ++ r).head?, isWordChar c = false := by
  intro c hc
  rw [tail_start] at hc
  cases e with
  | int | float | bool | var => rcases hr c hc with rfl | rfl | rfl <;> rfl
  | string | binary | unary | call | cast =>
    obtain rfl := Option.some.inj hc
    rfl

/-- **Texts that begin alike are of one kind**, with the same first word. -/
theorem start_inj {e e' : Expr} (he : e.Legible) (he' : e'.Legible) {r r' : List Char}
    (hr : Stops r) (hr' : Stops r') (h : e.text.toList ++ r = e'.text.toList ++ r') :
    e'.kind = e.kind ∧ e.word = e'.word ∧ e.tail.toList ++ r = e'.tail.toList ++ r' := by
  rw [text_eq, text_eq, String.toList_append, String.toList_append, List.append_assoc,
    List.append_assoc] at h
  -- Both texts are cut where their first words end.
  obtain ⟨hword, htail⟩ := Text.append_inj_of_all (isWordChar_word he.self)
    (isWordChar_word he'.self) (not_isWordChar_tail e hr) (not_isWordChar_tail e' hr') h
  replace hword := String.toList_injective hword
  refine ⟨?_, hword, htail⟩
  rw [← ofStart_word he'.self hr', ← hword, ← htail, ofStart_word he.self hr]

/-! ### Expressions that their surroundings delimit -/

/-- What follows an expression that its surroundings delimit: a bracket, a comma or the end. -/
def Closes (r : List Char) : Prop := ∀ c ∈ r.head?, c = ')' ∨ c = ','

theorem Closes.stops {r : List Char} (h : Closes r) : Stops r := fun c hc => .inr (h c hc)

theorem bare_of_ne_compound {e : Expr} (h : e.kind ≠ .compound) : e.bare = e.text := by
  cases e with
  | binary | unary => exact absurd rfl h
  | _ => rfl

theorem bare_binary_append (op : BinaryOp) (left right : Expr) (t : StaticType) (r : List Char) :
    (binary op left right t).bare.toList ++ r =
      left.text.toList ++ ' ' :: (op.symbol.toList ++ ' ' :: (right.text.toList ++ r)) := by
  have hblank : " ".toList = [' '] := by decide
  change (left.text ++ " " ++ op.symbol ++ " " ++ right.text).toList ++ r = _
  simp only [String.toList_append, hblank, List.append_assoc, List.cons_append, List.nil_append]

/-- The signs of the operators on one operand. -/
def isSign (c : Char) : Bool := c == '!' || c == '~' || c == '+' || c == '-'

/-- An operator on one operand is a sign. -/
theorem exists_sign (op : UnaryOp) : ∃ c, isSign c = true ∧ op.symbol.toList = [c] := by
  cases op
  · exact ⟨'!', rfl, by decide⟩
  · exact ⟨'~', rfl, by decide⟩
  · exact ⟨'+', rfl, by decide⟩
  · exact ⟨'-', rfl, by decide⟩

theorem bare_unary_append (op : UnaryOp) (e : Expr) (t : StaticType) (r : List Char) :
    (unary op e t).bare.toList ++ r = op.symbol.toList ++ (e.text.toList ++ r) := by
  change (op.symbol ++ e.text).toList ++ r = _
  rw [String.toList_append, List.append_assoc]

/-- The characters that the text of an expression can begin with, unless there is a sign. -/
def isStart (c : Char) : Bool := isIdentifierChar c || c == ':' || c == '(' || c == '"'

theorem isStart_of_digit {c : Char} (h : c.isDigit = true) : isStart c = true := by
  simp [isStart, isIdentifierChar, Char.isAlphanum, h]

/-- The first character of a text is that of its first word, or the one behind an empty word. -/
theorem head?_text (e : Expr) : e.text.toList.head? = e.word.toList.head?.or e.kind.next := by
  have htail := tail_start e []
  rw [List.append_nil, List.head?_nil, Option.or_none] at htail
  rw [text_eq, String.toList_append, List.head?_append, htail]

theorem text_start {e : Expr} (he : e.LegibleNode) :
    ∃ c ∈ e.text.toList.head?, isStart c = true := by
  have hword : ∀ {c : Char}, e.word.toList.head? = some c → isStart c = true →
      ∃ c ∈ e.text.toList.head?, isStart c = true := by
    intro c hc hstart
    refine ⟨c, ?_, hstart⟩
    rw [head?_text, hc]
    rfl
  cases e with
  | int n t =>
    obtain ⟨c, cs, hcs⟩ := List.exists_cons_of_ne_nil (toString_ne_nil n.toInt)
    have hdigit := isDigit_of_mem_toString he c (hcs ▸ List.mem_cons_self)
    exact hword (congrArg List.head? hcs) (isStart_of_digit hdigit)
  | float x t =>
    obtain ⟨⟨c, cs, hcs, hdigit⟩, -⟩ := Double.unsigned_form x
    rw [← toList_text_float he] at hcs
    exact hword (congrArg List.head? hcs) (isStart_of_digit hdigit)
  | bool b t =>
    have hstart : ∀ b : Bool, ∃ c, (if b then "true" else "false").toList.head? = some c ∧
        isStart c = true := by
      intro b
      cases b
      · exact ⟨'f', by decide, rfl⟩
      · exact ⟨'t', by decide, rfl⟩
    obtain ⟨c, hc, hstart⟩ := hstart b
    exact hword hc hstart
  | var name t =>
    obtain ⟨hchars, ⟨c, hc, -⟩, -⟩ := isName_iff.1 he
    refine hword hc ?_
    rw [isStart, hchars c (List.mem_of_mem_head? hc)]
    rfl
  | call f es t =>
    obtain ⟨c, cs, hcs⟩ := List.exists_cons_of_ne_nil fun hnil =>
      QualifiedName.ne_empty he (String.toList_eq_nil_iff.1 hnil)
    refine hword (congrArg List.head? hcs) ?_
    rcases QualifiedName.chars he c (hcs ▸ List.mem_cons_self) with hc | rfl
    · rw [isStart, hc]
      rfl
    · rfl
  | cast e u t => exact hword (show "static_cast".toList.head? = some 's' by decide) rfl
  | string | binary | unary => exact ⟨_, head?_text _, rfl⟩

theorem cons_ne_text {e : Expr} (he : e.LegibleNode) {c : Char} (hc : isStart c = false)
    (cs r : List Char) : c :: cs ≠ e.text.toList ++ r := by
  obtain ⟨d, hd, hstart⟩ := text_start he
  intro heq
  have hhead := congrArg List.head? heq
  rw [List.head?_append, Option.mem_def.1 hd] at hhead
  obtain rfl : c = d := Option.some.inj hhead
  rw [hc] at hstart
  cases hstart

/-- A text that begins with a sign is not that of an expression that stands by itself. -/
theorem symbol_append_ne {e : Expr} (he : e.LegibleNode) (op : UnaryOp) (cs r : List Char) :
    op.symbol.toList ++ cs ≠ e.text.toList ++ r := by
  obtain ⟨c, hc, hop⟩ := exists_sign op
  rw [hop]
  refine cons_ne_text he ?_ cs r
  simp only [isSign, Bool.or_eq_true, beq_iff_eq] at hc
  rcases hc with ((rfl | rfl) | rfl) | rfl <;> rfl

/-! ### Reading an expression and what follows it -/

/-- The expression is found again at the beginning of any text in which it stands by itself. -/
def Reads (e : Expr) : Prop :=
  ∀ ⦃e' : Expr⦄ ⦃r r' : List Char⦄, e'.Legible → Stops r → Stops r' →
    e.text.toList ++ r = e'.text.toList ++ r' → e.untyped = e'.untyped ∧ r = r'

/-- The expression is found again at the beginning of any text that delimits it. -/
def ReadsBare (e : Expr) : Prop :=
  ∀ ⦃e' : Expr⦄ ⦃r r' : List Char⦄, e'.Legible → Closes r → Closes r' →
    e.bare.toList ++ r = e'.bare.toList ++ r' → e.untyped = e'.untyped ∧ r = r'

theorem stops_blank (cs : List Char) : Stops (' ' :: cs) := by
  rintro c ⟨⟩
  exact .inl rfl

theorem closes_bracket (cs : List Char) : Closes (')' :: cs) := by
  rintro c ⟨⟩
  exact .inl rfl

/-- No operator follows an expression that its surroundings delimit. -/
theorem not_closes_blank {cs : List Char} : ¬ Closes (' ' :: cs) := by
  intro h
  rcases h ' ' rfl with h | h <;> cases h

theorem readsBare_of_reads {e : Expr} (he : e.Legible) (hkind : e.kind ≠ .compound)
    (hreads : e.Reads) : e.ReadsBare := by
  intro e' r r' he' hr hr' h
  rw [bare_of_ne_compound hkind] at h
  cases e' with
  | binary op' left' right' t' =>
    -- The left operand would be read, but an operator follows it.
    rw [bare_binary_append] at h
    obtain ⟨-, rfl⟩ := hreads (each_binary.1 he').2.1 hr.stops (stops_blank _) h
    exact absurd hr not_closes_blank
  | unary op' operand' t' =>
    rw [bare_unary_append] at h
    exact absurd h.symm (symbol_append_ne he.self _ _ _)
  | _ => exact hreads he' hr.stops hr'.stops h

theorem readsBare_unary (op : UnaryOp) {operand : Expr} (t : StaticType)
    (hoperand : operand.Reads) : (unary op operand t).ReadsBare := by
  intro e' r r' he' hr hr' h
  rw [bare_unary_append] at h
  cases e' with
  | unary op' operand' t' =>
    rw [bare_unary_append] at h
    obtain ⟨c, -, hop⟩ := exists_sign op
    obtain ⟨c', -, hop'⟩ := exists_sign op'
    obtain ⟨hsymbol, hrest⟩ := List.append_inj h (by rw [hop, hop']; rfl)
    obtain ⟨huntyped, rfl⟩ := hoperand (each_unary.1 he').2 hr.stops hr'.stops hrest
    have hsame := UnaryOp.symbol_injective (String.toList_injective hsymbol)
    rw [untyped, untyped, huntyped, hsame]
    exact ⟨rfl, rfl⟩
  | binary op' left' right' t' =>
    rw [bare_binary_append] at h
    exact absurd h (symbol_append_ne (each_binary.1 he').2.1.self _ _ _)
  | _ => exact absurd h (symbol_append_ne he'.self _ _ _)

theorem symbol_ne_blank (op : BinaryOp) : ∀ c ∈ op.symbol.toList, (c != ' ') = true := by
  rw [← List.all_eq_true]
  cases op <;> decide

theorem readsBare_binary (op : BinaryOp) {left right : Expr} (t : StaticType) (hl : left.Legible)
    (hleft : left.Reads) (hright : right.Reads) : (binary op left right t).ReadsBare := by
  intro e' r r' he' hr hr' h
  rw [bare_binary_append] at h
  cases e' with
  | binary op' left' right' t' =>
    obtain ⟨-, hl', hr''⟩ := each_binary.1 he'
    rw [bare_binary_append] at h
    -- The left operands are read first, then the operators up to the next blank.
    obtain ⟨hleft, hrest⟩ := hleft hl' (stops_blank _) (stops_blank _) h
    obtain ⟨hop, hrest⟩ := Text.append_inj_of_all (symbol_ne_blank op) (symbol_ne_blank op')
      (by simp) (by simp) (List.cons.inj hrest).2
    obtain ⟨hright, rfl⟩ := hright hr'' hr.stops hr'.stops (List.cons.inj hrest).2
    have hsame := BinaryOp.symbol_injective (String.toList_injective hop)
    rw [untyped, untyped, hleft, hright, hsame]
    exact ⟨rfl, rfl⟩
  | unary op' operand' t' =>
    rw [bare_unary_append] at h
    exact absurd h.symm (symbol_append_ne hl.self _ _ _)
  | _ =>
    -- The left operand would be the whole expression, but no operator follows that.
    obtain ⟨-, rfl⟩ := hleft he' (stops_blank _) hr'.stops h
    exact absurd hr' not_closes_blank

/-- The text of an operation that stands by itself is its text in brackets. -/
theorem toList_tail_compound {e : Expr} (h : e.kind = .compound) :
    e.tail.toList = '(' :: (e.bare.toList ++ [')']) := by
  cases e with
  | binary | unary => exact toList_bracketed _
  | _ => cases h

theorem reads_of_readsBare {e : Expr} (he : e.Legible) (hkind : e.kind = .compound)
    (hbare : e.ReadsBare) : e.Reads := by
  intro e' r r' he' hr hr' h
  obtain ⟨hsame, -, htail⟩ := start_inj he he' hr hr' h
  rw [toList_tail_compound hkind, toList_tail_compound (hsame.trans hkind)] at htail
  simp only [List.cons_append, List.append_assoc, List.nil_append] at htail
  obtain ⟨huntyped, hrest⟩ := hbare he' (closes_bracket _) (closes_bracket _)
    (List.cons.inj htail).2
  exact ⟨huntyped, (List.cons.inj hrest).2⟩

/-! ### Arguments -/

/-- A text that begins with a closing bracket is not that of an expression. -/
theorem bracket_ne {e : Expr} (he : e.Legible) (cs r : List Char) :
    ')' :: cs ≠ e.bare.toList ++ r := by
  cases e with
  | binary op left right t =>
    rw [bare_binary_append]
    exact cons_ne_text (each_binary.1 he).2.1.self rfl _ _
  | unary op operand t =>
    obtain ⟨c, hc, hop⟩ := exists_sign op
    rw [bare_unary_append, hop]
    intro heq
    obtain rfl : ')' = c := (List.cons.inj heq).1
    cases hc
  | _ => exact cons_ne_text he.self rfl _ _

/-- The arguments behind the first one, each behind a comma. -/
def moreArguments (es : List Expr) : List Char := es.flatMap fun e => ',' :: ' ' :: e.bare.toList

theorem toList_arguments (e : Expr) (es : List Expr) :
    (", ".intercalate (argumentTexts (e :: es))).toList = e.bare.toList ++ moreArguments es := by
  have hcomma : ", ".toList = [',', ' '] := by decide
  have htexts : ∀ es : List Expr, argumentTexts es = es.map bare := by
    intro es
    induction es with
    | nil => rfl
    | cons e es ih => exact congrArg _ ih
  rw [htexts, List.map_cons, Text.toList_intercalate_cons, List.flatMap_map, hcomma]
  rfl

theorem closes_moreArguments (es : List Expr) (r : List Char) :
    Closes (moreArguments es ++ ')' :: r) := by
  cases es with
  | nil => exact closes_bracket r
  | cons e es =>
    rintro c ⟨⟩
    exact .inr rfl

theorem moreArguments_inj {es es' : List Expr} {r r' : List Char} (h : ∀ e ∈ es, e.ReadsBare)
    (hes' : ∀ e ∈ es', e.Legible)
    (heq : moreArguments es ++ ')' :: r = moreArguments es' ++ ')' :: r') :
    untypedList es = untypedList es' ∧ r = r' := by
  induction es generalizing es' with
  | nil =>
    cases es' with
    | nil => exact ⟨rfl, (List.cons.inj heq).2⟩
    | cons e' es' => cases (List.cons.inj heq).1
  | cons e es ih =>
    cases es' with
    | nil => cases (List.cons.inj heq).1
    | cons e' es' =>
      rw [List.forall_mem_cons] at h hes'
      simp only [moreArguments, List.flatMap_cons, List.cons_append, List.append_assoc,
        List.cons.injEq, true_and] at heq
      obtain ⟨hfirst, hrest⟩ := h.1 hes'.1 (closes_moreArguments es r)
        (closes_moreArguments es' r') heq
      obtain ⟨hmore, rfl⟩ := ih h.2 hes'.2 hrest
      rw [untypedList, untypedList, hfirst, hmore]
      exact ⟨rfl, rfl⟩

/-- **Arguments are found again between brackets.** -/
theorem arguments_inj {es es' : List Expr} {r r' : List Char} (h : ∀ e ∈ es, e.ReadsBare)
    (hes : ∀ e ∈ es, e.Legible) (hes' : ∀ e ∈ es', e.Legible)
    (heq : (", ".intercalate (argumentTexts es)).toList ++ ')' :: r =
      (", ".intercalate (argumentTexts es')).toList ++ ')' :: r') :
    untypedList es = untypedList es' ∧ r = r' := by
  cases es with
  | nil =>
    cases es' with
    | nil => exact ⟨rfl, (List.cons.inj heq).2⟩
    | cons e' es' =>
      rw [toList_arguments, List.append_assoc] at heq
      exact absurd heq (bracket_ne (hes' e' List.mem_cons_self) _ _)
  | cons e es =>
    cases es' with
    | nil =>
      rw [toList_arguments, List.append_assoc] at heq
      exact absurd heq.symm (bracket_ne (hes e List.mem_cons_self) _ _)
    | cons e' es' =>
      rw [List.forall_mem_cons] at h hes'
      rw [toList_arguments, toList_arguments, List.append_assoc, List.append_assoc] at heq
      obtain ⟨hfirst, hrest⟩ := h.1 hes'.1 (closes_moreArguments es r)
        (closes_moreArguments es' r') heq
      obtain ⟨hmore, rfl⟩ := moreArguments_inj h.2 hes'.2 hrest
      rw [untypedList, untypedList, hfirst, hmore]
      exact ⟨rfl, rfl⟩

/-! ### All expressions -/

/-- An expression that is one word is told by its kind and its word. -/
theorem untyped_of_word {e e' : Expr} (hnext : e.kind.next = none) (hkind : e'.kind = e.kind)
    (hword : e.word = e'.word) : e.untyped = e'.untyped := by
  cases e with
  | int n t =>
    cases e' with
    | int n' t' =>
      obtain rfl : n = n' := Int64.toInt_inj.1 (Decimal.toString_injective hword)
      rfl
    | _ => cases hkind
  | float x t =>
    cases e' with
    | float x' t' =>
      obtain rfl : x = x' := Double.text_injective hword
      rfl
    | _ => cases hkind
  | bool b t =>
    cases e' with
    | bool b' t' =>
      have hspelled : ∀ b b' : Bool,
          (if b then "true" else "false") = (if b' then "true" else "false") → b = b' := by
        decide
      obtain rfl := hspelled b b' hword
      rfl
    | _ => cases hkind
  | var name t =>
    cases e' with
    | var name' t' =>
      obtain rfl : name = name' := hword
      rfl
    | _ => cases hkind
  | _ => cases hnext

theorem tail_of_word {e : Expr} (h : e.kind.next = none) : e.tail.toList = [] := by
  cases e with
  | int | float | bool | var => rfl
  | _ => cases h

theorem reads_of_word {e : Expr} (he : e.Legible) (hnext : e.kind.next = none) : e.Reads := by
  intro e' r r' he' hr hr' h
  obtain ⟨hkind, hword, htail⟩ := start_inj he he' hr hr' h
  rw [tail_of_word hnext, tail_of_word (hkind ▸ hnext)] at htail
  exact ⟨untyped_of_word hnext hkind hword, htail⟩

theorem reads_string (s : String) (t : StaticType) (he : (string s t).Legible) :
    (string s t).Reads := by
  intro e' r r' he' hr hr' h
  obtain ⟨hkind, -, htail⟩ := start_inj he he' hr hr' h
  cases e' with
  | string s' t' =>
    obtain ⟨rfl, rfl⟩ := literal_append_inj htail
    exact ⟨rfl, rfl⟩
  | _ => cases hkind

theorem tail_call_append (f : String) (es : List Expr) (t : StaticType) (r : List Char) :
    (call f es t).tail.toList ++ r =
      '(' :: ((", ".intercalate (argumentTexts es)).toList ++ ')' :: r) := by
  change ("(" ++ _ ++ ")").toList ++ r = _
  rw [toList_bracketed, List.cons_append, List.append_assoc, List.singleton_append]

theorem reads_call {f : String} {es : List Expr} {t : StaticType} (he : (call f es t).Legible)
    (hes : ∀ e ∈ es, e.ReadsBare) : (call f es t).Reads := by
  intro e' r r' he' hr hr' h
  obtain ⟨hkind, hword, htail⟩ := start_inj he he' hr hr' h
  cases e' with
  | call f' es' t' =>
    rw [tail_call_append, tail_call_append] at htail
    obtain ⟨huntyped, rfl⟩ := arguments_inj hes (each_call.1 he).2 (each_call.1 he').2
      (List.cons.inj htail).2
    obtain rfl : f = f' := hword
    rw [untyped, untyped, huntyped]
    exact ⟨rfl, rfl⟩
  | _ => cases hkind

theorem tail_cast_append (e : Expr) (u t : StaticType) (r : List Char) :
    (cast e u t).tail.toList ++ r =
      '<' :: (u.cppName.toList ++ '>' :: '(' :: (e.bare.toList ++ ')' :: r)) := by
  have hopen : "<".toList = ['<'] := by decide
  have hmiddle : ">(".toList = ['>', '('] := by decide
  have hclose : ")".toList = [')'] := by decide
  change ("<" ++ u.cppName ++ ">(" ++ e.bare ++ ")").toList ++ r = _
  simp only [String.toList_append, hopen, hmiddle, hclose, List.append_assoc, List.cons_append,
    List.nil_append]

theorem cppName_ne_angle (t : StaticType) : ∀ c ∈ t.cppName.toList, (c != '>') = true := by
  rw [← List.all_eq_true]
  cases t <;> decide

theorem reads_cast {e : Expr} {u t : StaticType} (he : (cast e u t).Legible)
    (hoperand : e.ReadsBare) : (cast e u t).Reads := by
  intro e' r r' he' hr hr' h
  obtain ⟨hkind, -, htail⟩ := start_inj he he' hr hr' h
  cases e' with
  | cast e' u' t' =>
    rw [tail_cast_append, tail_cast_append] at htail
    -- The name of the type ends at the bracket, and the operand at the one that closes it.
    obtain ⟨htarget, hrest⟩ := Text.append_inj_of_all (cppName_ne_angle u) (cppName_ne_angle u')
      (by simp) (by simp) (List.cons.inj htail).2
    obtain ⟨huntyped, hrest⟩ := hoperand (each_cast.1 he').2 (closes_bracket r)
      (closes_bracket r') (List.cons.inj (List.cons.inj hrest).2).2
    obtain rfl := cppName_injective (String.toList_injective htarget)
    rw [untyped, untyped, huntyped]
    exact ⟨rfl, (List.cons.inj hrest).2⟩
  | _ => cases hkind

mutual

/-- **Every legible expression is found again**, whether it stands by itself or its surroundings
delimit it. -/
theorem Legible.reads : (e : Expr) → e.Legible → e.Reads ∧ e.ReadsBare
  | .int .., h | .float .., h | .bool .., h | .var .., h => by
    have hreads := reads_of_word h rfl
    exact ⟨hreads, readsBare_of_reads h Kind.noConfusion hreads⟩
  | .string s t, h => by
    have hreads := reads_string s t h
    exact ⟨hreads, readsBare_of_reads h Kind.noConfusion hreads⟩
  | .binary op left right t, h => by
    obtain ⟨-, hl, hr⟩ := each_binary.1 h
    have hbare := readsBare_binary op t hl (Legible.reads left hl).1 (Legible.reads right hr).1
    exact ⟨reads_of_readsBare h rfl hbare, hbare⟩
  | .unary op operand t, h => by
    have hbare := readsBare_unary op t (Legible.reads operand (each_unary.1 h).2).1
    exact ⟨reads_of_readsBare h rfl hbare, hbare⟩
  | .call f es t, h => by
    have hreads := reads_call h (Legible.readsBare_all es (each_call.1 h).2)
    exact ⟨hreads, readsBare_of_reads h Kind.noConfusion hreads⟩
  | .cast e u t, h => by
    have hreads := reads_cast h (Legible.reads e (each_cast.1 h).2).2
    exact ⟨hreads, readsBare_of_reads h Kind.noConfusion hreads⟩

theorem Legible.readsBare_all : (es : List Expr) → (∀ e ∈ es, e.Legible) → ∀ e ∈ es, e.ReadsBare
  | [], _ => fun _ he => absurd he List.not_mem_nil
  | e :: es, h => by
    rw [List.forall_mem_cons] at h ⊢
    exact ⟨(Legible.reads e h.1).2, Legible.readsBare_all es h.2⟩

end

mutual

/-- Texts do not show the types of nodes. -/
theorem textIn_untyped (delimited : Bool) : (e : Expr) →
    e.untyped.textIn delimited = e.textIn delimited
  | .int .. | .float .. | .bool .. | .string .. | .var .. => rfl
  | .binary op left right t => by
    change enclose delimited (left.untyped.textIn false ++ " " ++ op.symbol ++ " " ++
      right.untyped.textIn false) = _
    rw [textIn_untyped false left, textIn_untyped false right]
    rfl
  | .unary op operand t => by
    change enclose delimited (op.symbol ++ operand.untyped.textIn false) = _
    rw [textIn_untyped false operand]
    rfl
  | .call f es t => by
    change f ++ "(" ++ ", ".intercalate (argumentTexts (untypedList es)) ++ ")" = _
    rw [argumentTexts_untypedList es]
    rfl
  | .cast e u t => by
    change "static_cast<" ++ u.cppName ++ ">(" ++ e.untyped.textIn true ++ ")" = _
    rw [textIn_untyped true e]
    rfl

theorem argumentTexts_untypedList : (es : List Expr) →
    argumentTexts (untypedList es) = argumentTexts es
  | [] => rfl
  | e :: es => congrArg₂ List.cons (textIn_untyped true e) (argumentTexts_untypedList es)

end

/-- **The text of an expression determines it**, up to the types of its nodes, which no text shows.
This is so for expressions that stand by themselves and for those that their surroundings
delimit. -/
theorem text_eq_iff_untyped {e e' : Expr} (h : e.Legible) (h' : e'.Legible) :
    (e.text = e'.text ↔ e.untyped = e'.untyped) ∧ (e.bare = e'.bare ↔ e.untyped = e'.untyped) := by
  obtain ⟨hreads, hbare⟩ := Legible.reads e h
  have hend : Closes [] := fun c hc => by cases hc
  constructor
  · constructor
    · intro heq
      have htext : e.text.toList ++ [] = e'.text.toList ++ [] := by rw [heq]
      exact (hreads h' hend.stops hend.stops htext).1
    · intro heq
      rw [text, text, ← textIn_untyped false e, heq, textIn_untyped]
  · constructor
    · intro heq
      have htext : e.bare.toList ++ [] = e'.bare.toList ++ [] := by rw [heq]
      exact (hbare h' hend hend htext).1
    · intro heq
      rw [bare, bare, ← textIn_untyped true e, heq, textIn_untyped]

/-- A sum with a factor behind it and a summand before a product are told apart. -/
theorem text_ne_of_regrouped :
    (binary .mul (binary .add (var "a" .integer) (call "std::stoi" [string "?" .string] .integer)
      .integer) (int 2 .integer) .integer).bare ≠
    (binary .add (var "a" .integer) (binary .mul (call "std::stoi" [string "?" .string] .integer)
      (int 2 .integer) .integer) .integer).bare := by
  have hname : QualifiedName "std::stoi" := by
    have hparts : "std::stoi" = "std" ++ "::" ++ "stoi" := by decide
    rw [hparts]
    exact .qualified (.inr (by decide)) (.name (by decide))
  have hvar : isName "a" = true := by decide
  have hint : (0 : Int64) ≤ 2 := by decide
  refine mt (text_eq_iff_untyped ?_ ?_).2.1 ?_
  · simp [Legible, Each, nodes, nodesList, LegibleNode, hname, hvar, hint]
  · simp [Legible, Each, nodes, nodesList, LegibleNode, hname, hvar, hint]
  · simp [untyped]

end Expr

end StaticScript.Target
