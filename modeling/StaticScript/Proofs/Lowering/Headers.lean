import StaticScript.Proofs.Lowering.Hiding
import StaticScript.Proofs.Target.LibraryNames
import StaticScript.Source.Compose

/-!
# Headers of programs

The headers of a program are collected from its tree, while it is its text that needs them: every
name of the standard library in the code of the text must be declared by a header that is included
(`Provided`).  The names in the text come from the nodes of the tree (`Program.name_of_mentions`),
and each node, statement and head of a function that brings a name asks for its header
(`holds_names`, `Emits.names`, `names_of_mem_functions`).

The names of the script are printed as they are, and a comment is printed on the line where it
begins.  So the names must be plain, and the comments lines (`isLegible`); in `qualified` a variable
is called `std::cout`, and the name of the stream stands in a program that includes nothing
(`qualified_lacks_header`).  The other things that are not allowed break a literal or a comment, so
that what is in it becomes code (`illegible`).

**Main theorem** (`includes_of_mentions`): a program that stands for such a script includes the
headers of all names of the library in its code.
-/

namespace StaticScript

/-! ### Scripts -/

namespace Source

/-- The names in the statement are plain, and a comment is a single line. -/
def Stmt.isLegible (s : Stmt) : Bool :=
  s.expressions.all (fun e => e.nodes.all fun n => n.asName.all Target.isPlainText) &&
    match s with
    | .functionDef _ name parameters _ _ _ =>
      Target.isPlainText name && parameters.all fun p => Target.isPlainText p.name
    | .comment _ content => !(Text.trim content.toList).contains '\n'
    | _ => true

/-- All statements of the script are legible. -/
def Module.isLegible (m : Module) : Bool := (Stmt.nestedBlock m.body).all Stmt.isLegible

theorem Stmt.isPlainText_of_mentions {s : Stmt} (hs : s.isLegible = true) {e : Expr}
    (he : e ∈ s.expressions) {x : String} (hx : e.mentions x = true) :
    Target.isPlainText x = true := by
  obtain ⟨n, hn, hname⟩ := List.any_eq_true.1 hx
  have hall := List.all_eq_true.1 (Bool.and_eq_true_iff.1 hs).1 e he
  have hplain := List.all_eq_true.1 hall n hn
  rwa [eq_of_beq hname] at hplain

end Source

namespace Lowering

open Source (Stmt)
open Target (Expr Include isPlainText)
open Target.Stmt (nestedBlock exprNodesBlock)

variable {policy : Policy} {is : List Include}

/-! ### Names and headers -/

/-- The names of the standard library that programs use. -/
def standardNames : List String :=
  ["cout", "endl", "string", "fmod", "pow", "to_string", "abs"] ++ Typing.mathFunctions

/-- The header that declares a name. -/
def headerOf (x : String) : Include :=
  if x = "cout" ∨ x = "endl" then .iostream
  else if x = "string" ∨ x = "to_string" then .string
  else .cmath

/-- The name is one of the library, and its header is included. -/
def Provided (is : List Include) (x : String) : Prop := x ∈ standardNames ∧ headerOf x ∈ is

theorem provided_of_typeNeeds {t : StaticType} (h : ∀ i, typeNeeds i t = true → i ∈ is)
    (ht : t = .string) : Provided is "string" := by
  have hstring : .string ∈ is := by
    apply h
    rw [ht]
    rfl
  exact ⟨by decide, hstring⟩

/-- A call of a function of the library needs the header that declares it. -/
theorem exists_of_mem_libraryNames {f : String} (hf : f ∈ libraryNames) :
    ∃ x ∈ standardNames, f = "std::" ++ x ∧ Target.isWord x = true ∧
      ∀ es t, exprNeeds (headerOf x) (.call f es t) = true := by
  have hlibrary : ∀ f ∈ libraryNames, ∃ x ∈ standardNames, f = "std::" ++ x ∧
      Target.isWord x = true ∧ headerOf x =
        if f = "std::to_string" ∨ f = "std::string" then .string else .cmath := by
    decide
  obtain ⟨x, hx, rfl, hword, hheader⟩ := hlibrary f hf
  have hqualified : "std::".isPrefixOf ("std::" ++ x) = true := by
    rw [String.isPrefixOf, String.startsWith_string_iff, String.toList_append]
    exact List.prefix_append _ _
  -- A call asks for `cmath` if its name is qualified, but for the two names of `string`.
  refine ⟨x, hx, rfl, hword, fun es t => Bool.or_eq_true_iff.2 (.inr ?_)⟩
  rw [hheader]
  dsimp only
  split
  · rfl
  · exact hqualified

/-! ### What is included -/

theorem mem_includes {items : List Target.Item} {i : Include} :
    i ∈ includes items ↔ ∃ item ∈ items, itemNeeds i item = true := by
  have hall : i ∈ Include.all := by cases i <;> decide
  simp [includes, hall]

/-- What a statement needs that is nested in the block, the block needs. -/
theorem any_of_stmtNeeds {b : Block} {t : Target.Stmt} {i : Include} (ht : t ∈ nestedBlock b)
    (h : stmtNeeds i t = true) : b.any (stmtTreeNeeds i) = true := by
  rw [Target.Stmt.nestedBlock_eq] at ht
  obtain ⟨s, hs, ht⟩ := List.mem_flatMap.1 ht
  exact List.any_eq_true.2 ⟨s, hs, Bool.or_eq_true_iff.2 (.inl (List.any_eq_true.2 ⟨t, ht, h⟩))⟩

/-- What an expression needs that stands in the block, the block needs. -/
theorem any_of_exprNeeds {b : Block} {n : Expr} {i : Include} (hn : n ∈ exprNodesBlock b)
    (h : exprNeeds i n = true) : b.any (stmtTreeNeeds i) = true := by
  rw [Target.Stmt.exprNodesBlock_eq] at hn
  obtain ⟨s, hs, hn⟩ := List.mem_flatMap.1 hn
  exact List.any_eq_true.2 ⟨s, hs, Bool.or_eq_true_iff.2 (.inr (List.any_eq_true.2 ⟨n, hn, h⟩))⟩

section

variable {p : Target.Program} {f : Target.Function} {i : Include}

theorem mem_includes_of_head (hf : f ∈ p.functions) (h : headNeeds i f = true) :
    i ∈ includes p.items :=
  mem_includes.2 ⟨.function f, Target.Program.mem_functions.1 hf, Bool.or_eq_true_iff.2 (.inl h)⟩

theorem mem_includes_of_body (hf : f ∈ p.functions) (h : f.body.any (stmtTreeNeeds i) = true) :
    i ∈ includes p.items :=
  mem_includes.2 ⟨.function f, Target.Program.mem_functions.1 hf, Bool.or_eq_true_iff.2 (.inr h)⟩

theorem mem_includes_of_main (h : p.mainBody.any (stmtTreeNeeds i) = true) :
    i ∈ includes p.items := by
  obtain ⟨s, hs, h⟩ := List.any_eq_true.1 h
  exact mem_includes.2 ⟨.stmt s, Target.Program.mem_mainBody.1 hs, h⟩

end

/-! ### Nodes -/

theorem names_of_isLiteral {e : Expr} (h : e.isLiteral = true) : e.Names (Provided is) := by
  cases e with
  | int | float | bool | string => trivial
  | _ => cases h

/-- **Every node that lowering makes asks for the headers of what it names.** -/
theorem holds_names {globals : Globals} (hdefaults : globals.LiteralDefaults)
    (hnames : ∀ s ∈ globals.functions, isPlainText s.name = true) :
    Holds policy (fun n => (∀ i, exprNeeds i n = true → i ∈ is) → n.Names (Provided is))
      (fun x => isPlainText x = true) globals where
  literal _ he _ := names_of_isLiteral he
  binary _ _ _ _ _ := trivial
  unary _ _ _ _ := trivial
  castTo _ _ h := provided_of_typeNeeds fun i hi => h i (Bool.or_eq_true_iff.2 (.inl hi))
  library name hname es t h := by
    obtain ⟨x, hx, rfl, hword, hneeds⟩ := exists_of_mem_libraryNames hname
    exact .inr ⟨x, rfl, hword, hx, h _ (hneeds es t)⟩
  var x t hx _ := hx
  call name s hs es _ _ := .inl (hnames s (List.mem_of_find?_eq_some hs))
  defaults := hdefaults

/-! ### Statements -/

theorem mem_of_mem_trim {cs : List Char} {c : Char} (h : c ∈ Text.trim cs) : c ∈ cs :=
  (List.dropWhile_sublist _).subset ((Target.trimEnd_isPrefix _).subset h)

theorem mem_of_mem_dropEmptyEnds {lines : List (List Char)} {l : List Char}
    (h : l ∈ dropEmptyEnds lines) : l ∈ lines := by
  rw [dropEmptyEnds, List.mem_reverse] at h
  have hrest := (List.dropWhile_sublist _).subset h
  exact (List.dropWhile_sublist _).subset (List.mem_reverse.1 hrest)

theorem isLinewise_docComment {s : Stmt} (hdoc : s.isDoc = true) (hs : s.isLegible = true) :
    (docComment s).isLinewise = true := by
  cases s with
  | docString site content =>
    simp only [docComment, Target.Comment.isLinewise, List.all_map, List.all_eq_true]
    intro l hl
    obtain ⟨line, hline, rfl⟩ := List.mem_map.1 (mem_of_mem_dropEmptyEnds hl)
    simpa using fun hfeed => Target.notMem_of_mem_lines hline (mem_of_mem_trim hfeed)
  | comment site content =>
    rw [docComment, Target.Comment.isLinewise, String.toList_ofList]
    exact (Bool.and_eq_true_iff.1 hs).2
  | _ => cases hdoc

theorem isPlainText_of_binding? {s : Stmt} (hs : s.isLegible = true) {x : String}
    {e : Source.Expr} (h : binding? s = some (x, e)) : isPlainText x = true := by
  rcases exists_of_binding? h with ⟨site, target, hx, rfl⟩ | ⟨site, target, op, value, hx, rfl, -⟩
  · exact Stmt.isPlainText_of_mentions hs List.mem_cons_self (Source.Expr.mentions_iff.2 (.inl hx))
  · exact Stmt.isPlainText_of_mentions hs List.mem_cons_self (Source.Expr.mentions_iff.2 (.inl hx))

/-- **Every statement that is emitted asks for the headers of what it names.** -/
theorem Emits.names {st st' : State} {s : Stmt} {b : Block} (h : Emits policy st s b st')
    (hs : s.isLegible = true) {t : Target.Stmt} (ht : t ∈ b)
    (hneeds : ∀ i, stmtNeeds i t = true → i ∈ is) : t.Names (Provided is) := by
  cases h with
  | pass | imports => cases ht
  | skipped =>
    obtain rfl := List.mem_singleton.1 ht
    rfl
  | doc hdoc =>
    obtain rfl := List.mem_singleton.1 ht
    exact isLinewise_docComment hdoc hs
  | print =>
    obtain rfl := List.mem_singleton.1 ht
    have hstream : .iostream ∈ is := hneeds .iostream rfl
    exact ⟨⟨by decide, hstream⟩, by decide, hstream⟩
  | declare hbinding =>
    obtain rfl := List.mem_singleton.1 ht
    exact ⟨isPlainText_of_binding? hs hbinding, provided_of_typeNeeds hneeds⟩
  | store hbinding =>
    obtain rfl := List.mem_singleton.1 ht
    exact isPlainText_of_binding? hs hbinding
  | forLoop hhead =>
    obtain rfl := List.mem_singleton.1 ht
    exact Stmt.isPlainText_of_mentions hs List.mem_cons_self
      (Source.Expr.mentions_iff.2 (.inl hhead.target))
  | call | ifElse | whileLoop | ret | brk | cont =>
    obtain rfl := List.mem_singleton.1 ht
    trivial

theorem Originates.names {st : State} {ss : List Stmt} {t : Target.Stmt}
    (h : Originates policy st ss t) (hss : ∀ s ∈ ss, s.isLegible = true)
    (hneeds : ∀ i, stmtNeeds i t = true → i ∈ is) : t.Names (Provided is) := by
  obtain ⟨s, hs, st₁, b, st₂, -, hemits, ht⟩ := h
  exact hemits.names (hss s hs) ht hneeds

/-! ### Functions -/

/-- The names in the signature are plain, and those that it gives to types are words. -/
structure PlainNames (s : Signature) : Prop where
  name : isPlainText s.name = true
  param : ∀ p ∈ s.params, isPlainText p.name = true
  generic : ∀ p ∈ s.params, ∀ g, p.type = .generic g → Target.isWord g = true

theorem plain_of_signatureParams {policy : GenericPolicy} {n : Nat} {ps : List Source.Parameter}
    {params : List SignatureParam} (h : Typing.signatureParams policy n ps = .ok params)
    (hps : ∀ p ∈ ps, isPlainText p.name = true) : ∀ p ∈ params,
      isPlainText p.name = true ∧ ∀ g, p.type = .generic g → Target.isWord g = true := by
  intro p hp
  obtain ⟨q, hq, hread⟩ := Typing.readFrom_of_signatureParams h p hp
  cases hread with
  | hinted | inferred => exact ⟨hps q hq, by simp⟩
  | @generic n =>
    refine ⟨hps q hq, ?_⟩
    rintro g ⟨⟩
    rw [Target.isWord, String.toList_append, List.all_append]
    exact Bool.and_eq_true_iff.2 ⟨rfl, Target.isWord_nat n⟩

theorem plainNames_of_signature {d : Stmt} (hd : d.isLegible = true) {s : Signature}
    (h : Typing.signature policy d = .ok s) : PlainNames s := by
  cases d with
  | functionDef site name parameters returns decorators body =>
    obtain ⟨-, hnames⟩ := Bool.and_eq_true_iff.1 hd
    obtain ⟨hname, hparams⟩ := Bool.and_eq_true_iff.1 hnames
    simp only [Typing.signature, Checked.guard_eq_ok, Checked.bind_eq_ok, Checked.pure_eq_ok] at h
    obtain ⟨-, params, hsignature, _, -, rfl⟩ := h
    have hplain := plain_of_signatureParams hsignature (List.all_eq_true.1 hparams)
    exact ⟨hname, fun p hp => (hplain p hp).1, fun p hp => (hplain p hp).2⟩
  | _ => simp [Typing.signature] at h

theorem names_functionParams {s : Signature} (hs : PlainNames s)
    (hliteral : ∀ p ∈ s.params, ∀ v, p.default = some v → v.isLiteral = true)
    (htype : ∀ p ∈ s.params, ∀ t, p.type = .concrete t → ∀ i, typeNeeds i t = true → i ∈ is) :
    ∀ p ∈ functionParams policy s, p.Names (Provided is) := by
  intro q hq
  obtain ⟨p, hp, rfl⟩ := List.mem_map.1 hq
  refine ⟨hs.param p hp, ?_, fun e he => ?_⟩
  · cases hcase : p.type with
    | concrete t => exact provided_of_typeNeeds (htype p hp t hcase)
    | generic g => exact hs.generic p hp g hcase
  · have hdefault : p.default = some e := by
      dsimp only at he
      split at he
      · exact he
      · cases he
    have hvalue := hliteral p hp e hdefault
    rw [Expr.Each, nodes_of_isLiteral hvalue]
    exact List.forall_mem_singleton.2 (names_of_isLiteral hvalue)

section

variable {m : Source.Module} (hm : m.isLegible = true)
include hm

theorem plainNames_programGlobals :
    ∀ s ∈ (programGlobals policy m.body).functions, PlainNames s := by
  refine forall_functions_programGlobals (fun d hd s hs => ?_)
    fun s t h => ⟨h.name, h.param, h.generic⟩
  have hlegible := List.all_eq_true.1 hm d (Stmt.nested_subset_of_mem hd d.mem_nested_self)
  exact plainNames_of_signature hlegible hs

/-- The nodes in the program ask for the headers of what they name. -/
theorem names_of_mem_exprNodes : ∀ n ∈ (emit policy m).program.exprNodes,
    (∀ i, exprNeeds i n = true → i ∈ is) → n.Names (Provided is) := by
  refine each_emit (holds_names (literalDefaults_programGlobals m.body)
    fun s hs => (plainNames_programGlobals hm s hs).name) fun s hs e he x hx => ?_
  exact Stmt.isPlainText_of_mentions (List.all_eq_true.1 hm s hs) he hx

/-- **Every function of the program asks for the headers of what it names.** -/
theorem names_of_mem_functions {f : Target.Function}
    (hf : f ∈ (emit policy m).program.functions) :
    f.Names (Provided (emit policy m).program.includes) := by
  obtain ⟨stop, hitems, -⟩ := emitsItems_emit policy m
  obtain ⟨d, hd, s, body, hdeclared, heq⟩ := hitems.mem_functions.1 hf
  obtain ⟨_, hbody, -⟩ := emits_emitFunction policy (programGlobals policy m.body) [] s body
  rw [← heq] at hbody
  have hs := List.mem_of_find?_eq_some (declared?_eq_some hdeclared).1
  have hplain : PlainNames s := plainNames_programGlobals hm s hs
  have hhead : ∀ i, headNeeds i f = true → i ∈ (emit policy m).program.includes :=
    fun i hi => mem_includes_of_head hf hi
  refine ⟨?_, provided_of_typeNeeds fun i hi => hhead i ?_, fun p hp => ?_, fun t ht => ?_,
    fun n hn => ?_⟩
  · rw [heq]
    exact hplain.name
  · rw [headNeeds, hi]
    rfl
  · rw [heq] at hp
    refine names_functionParams hplain (literalDefaults_programGlobals m.body s hs)
      (fun q hq t ht i hi => hhead i ?_) p hp
    rw [headNeeds, heq]
    refine Bool.or_eq_true_iff.2 (.inr (List.any_eq_true.2 ⟨_, List.mem_map_of_mem hq, ?_⟩))
    simpa only [ht] using hi
  · refine (hbody.origin t ht).names (fun s' hs' => List.all_eq_true.1 hm s' ?_)
      fun i hi => mem_includes_of_body hf (any_of_stmtNeeds ht hi)
    exact nestedBlock_subset_of_declared? hd hdeclared hs'
  · have hmem : n ∈ (emit policy m).program.exprNodes :=
      List.mem_append_left _ (List.mem_flatMap.2 ⟨f, hf, hn⟩)
    exact names_of_mem_exprNodes hm n hmem fun i hi =>
      mem_includes_of_body hf (any_of_exprNeeds hn hi)

/-- The program asks for the headers of what it names. -/
theorem names_emit : (emit policy m).program.Names (Provided (emit policy m).program.includes) := by
  obtain ⟨stop, hitems, -⟩ := emitsItems_emit policy m
  refine ⟨fun f hf => names_of_mem_functions hm hf, fun t ht => ?_, fun n hn => ?_⟩
  · exact (hitems.origin _ t ht).names (List.all_eq_true.1 hm) fun i hi =>
      mem_includes_of_main (any_of_stmtNeeds ht hi)
  · have hmem : n ∈ (emit policy m).program.exprNodes := List.mem_append_right _ hn
    exact names_of_mem_exprNodes hm n hmem fun i hi =>
      mem_includes_of_main (any_of_exprNeeds hn hi)

end

/-! ### Texts -/

/-- The header of a name that begins no other name of the library. -/
theorem header_of_infix {cs : List Char} {x : String}
    (hP : ∀ y, Target.Mentions cs y → Provided is y) (hx : Target.isWord x = true)
    (hlongest : ∀ y ∈ standardNames, x.toList <+: y.toList → y = x)
    (h : ("std::" ++ x).toList <:+: cs) : headerOf x ∈ is := by
  obtain ⟨y, hprefix, hy⟩ := Target.Mentions.of_infix (List.all_eq_true.1 hx) h
  obtain ⟨hmem, hheader⟩ := hP y hy
  rwa [hlongest y hmem hprefix] at hheader

/-- **A program includes the headers of all that it names.**  Where its code has `std::cout` or
`std::endl` in it, `iostream` is included, `string` where it has `std::string` or `std::to_string`,
and `cmath` where it has any other name of the library. -/
theorem includes_of_mentions (policy : Policy) (m : Source.Module) (hm : m.isLegible = true)
    (white : Char → Bool) (hwhite : ∀ c, white c = true → Text.isBlank c = true) :
    let p := (emit policy m).program
    let code := Target.code white p.text.toList
    ("std::cout".toList <:+: code ∨ "std::endl".toList <:+: code → .iostream ∈ p.includes) ∧
    ("std::string".toList <:+: code ∨ "std::to_string".toList <:+: code →
      .string ∈ p.includes) ∧
    ∀ x, Target.Mentions code x → x ∉ ["cout", "endl", "string", "to_string"] →
      .cmath ∈ p.includes := by
  intro p code
  have hprovided : ∀ x, Target.Mentions code x → Provided p.includes x :=
    fun x hx => Target.Program.name_of_mentions (names_emit hm) hwhite hx
  refine ⟨?_, ?_, fun x hx hother => ?_⟩
  · rintro (h | h)
    · exact header_of_infix (x := "cout") hprovided (by decide) (by decide) h
    · exact header_of_infix (x := "endl") hprovided (by decide) (by decide) h
  · rintro (h | h)
    · exact header_of_infix (x := "string") hprovided (by decide) (by decide) h
    · exact header_of_infix (x := "to_string") hprovided (by decide) (by decide) h
  · obtain ⟨-, hheader⟩ := hprovided x hx
    simp only [List.mem_cons, List.not_mem_nil, or_false, not_or] at hother
    obtain ⟨hcout, hendl, hstring, htext⟩ := hother
    rwa [headerOf, if_neg (not_or.2 ⟨hcout, hendl⟩), if_neg (not_or.2 ⟨hstring, htext⟩)] at hheader

end Lowering

open Source.Compose in
/-- A condition and, in its branch, a statement that need all headers. -/
def Source.joining : Source.Module :=
  script
    [ifElse (compare (int 1) [(.lt, binary (int 2) .pow (int 2))])
      [expr (call (name "print") [binary (str "a") .add (str "b")] [])] []]

namespace Lowering

theorem isBlank_of_isLineSpace (c : Char) (h : Target.isLineSpace c = true) :
    Text.isBlank c = true := by
  simp only [Target.isLineSpace, List.mem_cons, List.not_mem_nil, or_false, decide_eq_true_eq] at h
  rcases h with rfl | rfl | rfl | rfl | rfl <;> decide

/-- What stands in a condition and in a branch is declared. -/
theorem joining_includes :
    let p := (emit ⟨.template, .keep⟩ Source.joining).program
    let code := Target.code Target.isLineSpace p.text.toList
    Source.joining.isLegible = true ∧
    (∀ c, Target.isLineSpace c = true → Text.isBlank c = true) ∧
    ("std::cout".toList <:+: code ∧ "std::string".toList <:+: code ∧ Target.Mentions code "pow") ∧
    .iostream ∈ p.includes ∧ .string ∈ p.includes ∧ .cmath ∈ p.includes := by
  intro p code
  have hlegible : Source.joining.isLegible = true := by decide +kernel
  have hcode : "std::cout".toList <:+: code ∧ "std::string".toList <:+: code ∧
      code = code.take 102 ++ ("std::" ++ "pow").toList ++ code.drop 110 ∧
      (code.drop 110).head? = some '(' := by
    decide +kernel
  obtain ⟨hcout, hstring, hpow, hback⟩ := hcode
  have hmentions : Target.Mentions code "pow" := by
    refine ⟨code.take 102, code.drop 110, hpow, List.all_eq_true.1 (by decide), ?_⟩
    rw [hback]
    rintro c ⟨⟩
    decide
  obtain ⟨hstream, htext, hmath⟩ := includes_of_mentions ⟨.template, .keep⟩ Source.joining hlegible
    Target.isLineSpace isBlank_of_isLineSpace
  exact ⟨hlegible, isBlank_of_isLineSpace, ⟨hcout, hstring, hmentions⟩, hstream (.inl hcout),
    htext (.inl hstring), hmath "pow" hmentions (by decide)⟩

end Lowering

open Source.Compose in
/-- A variable with the name of a stream. -/
def Source.qualified : Source.Module := script [assign "std::cout" (int 1)]

/-- A name that is not plain stands for the stream in a program without headers. -/
theorem Lowering.qualified_lacks_header :
    let p := (emit ⟨.template, .keep⟩ Source.qualified).program
    ¬ ("std::cout".toList <:+: Target.code Target.isLineSpace p.text.toList →
      .iostream ∈ p.includes) := by
  decide +kernel

open Source.Compose in
/-- Scripts that are illegible for a quote, an apostrophe or a slash in a name, and for a comment of
two lines. -/
def Source.illegible : List Source.Module :=
  [script [assign "\"" (str "std::cout\"")],
   script [assign "\x27" (str "\x27std::cout\"\x27")],
   script [assign "/*" (int 1), comment "*/std::cout"],
   script [comment "two lines\nstd::cout"]]

-- In all of them the name of the stream gets out of a literal or a comment.
example : ∀ m ∈ Source.illegible,
    let p := (Lowering.emit ⟨.template, .keep⟩ m).program
    m.isLegible = false ∧ "std::cout".toList <:+: Target.code Target.isLineSpace p.text.toList ∧
      .iostream ∉ p.includes := by
  decide +kernel

end StaticScript
