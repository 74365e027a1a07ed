import StaticScript.Proofs.Json.Record
import StaticScript.Proofs.Json.Text
import StaticScript.Proofs.Source.Numbering
import StaticScript.Source.Compose
import StaticScript.Source.Document

/-!
# Loading what was saved

A script is read back from its document as it was written (`Module.ofJson?_toJson`).  The readers
give up where they run out of levels, so this takes that the document is nested no deeper than they
may go, and it is shown for each part by induction on the tree, for every number of levels that is
enough (`Expr.ReadBack`, `Stmt.ReadBack`).  Expressions and statements are nodes of one form, and a
node is read by the content of its kind (`ReadsNodes`).

All numbers in a document but the floats are short enough to be read from their texts, so the text
of a document is read as the document, if the floats are read from theirs
(`Module.legible_toJson`).

**Main theorem** (`load_document`): loading a script that was saved gives the script, numbered.
-/

namespace StaticScript.Source

open Json

/-! ### Tags, places and sites -/

/-- A value is read back from its tag, if no other has this tag. -/
theorem ofTag?_ofText {α : Type} {all : List α} {tag : α → String} {a : α} (ha : a ∈ all)
    (hinj : ∀ b ∈ all, tag b = tag a → b = a) (n : Nat) :
    ofTag? all tag n (ofText (tag a)) = some a := by
  have htag : (ofText (tag a)).tagWithin? n = some (tag a) := by
    cases n <;> rfl
  rw [ofTag?, htag, Option.bind_eq_bind, Option.bind_some]
  obtain ⟨b, hb⟩ : ∃ b, all.find? (fun b => tag b == tag a) = some b :=
    Option.isSome_iff_exists.1 (List.find?_isSome.2 ⟨a, ha, beq_self_eq_true _⟩)
  have heq : tag b = tag a := by simpa using List.find?_some hb
  rw [hb, hinj b (List.mem_of_find?_eq_some hb) heq]

@[simp] theorem ofTag?_binaryOp (op : BinaryOp) (n : Nat) :
    ofTag? BinaryOp.all BinaryOp.tag n (ofText op.tag) = some op :=
  ofTag?_ofText (by cases op <;> decide) (by cases op <;> decide) n

@[simp] theorem ofTag?_boolOp (op : BoolOp) (n : Nat) :
    ofTag? BoolOp.all BoolOp.tag n (ofText op.tag) = some op :=
  ofTag?_ofText (by cases op <;> decide) (by cases op <;> decide) n

@[simp] theorem ofTag?_unaryOp (op : UnaryOp) (n : Nat) :
    ofTag? UnaryOp.all UnaryOp.tag n (ofText op.tag) = some op :=
  ofTag?_ofText (by cases op <;> decide) (by cases op <;> decide) n

@[simp] theorem ofTag?_compareOp (op : CompareOp) (n : Nat) :
    ofTag? CompareOp.all CompareOp.tag n (ofText op.tag) = some op :=
  ofTag?_ofText (by cases op <;> decide) (by cases op <;> decide) n

@[simp] theorem ofTag?_parameterKind (kind : ParameterKind) (n : Nat) :
    ofTag? ParameterKind.all ParameterKind.tag n (ofText kind.tag) = some kind :=
  ofTag?_ofText (by cases kind <;> decide) (by cases kind <;> decide) n

theorem Location.ofJson?_of_record {j file line column : Json} {l : Location} (k : Nat)
    (hrecord : j.record? ["filename", "line", "column"] = some [some file, some line, some column])
    (hfile : file.toText? = some l.file) (hline : line.toUInt32? = some l.line)
    (hcolumn : column.toUInt32? = some l.column) : Location.ofJson? (k + 1) j = some l := by
  simp [Location.ofJson?, hrecord, hfile, hline, hcolumn]

theorem Location.ofJson?_toJson {l : Location} {n : Nat} (h : l.toJson.depth ≤ n) :
    Location.ofJson? n l.toJson = some l := by
  obtain ⟨k, rfl, -⟩ := depth_ofFields_le h
  exact ofJson?_of_record k (record?_ofFields [_, _, _] (by decide) rfl) (toText?_ofText _)
    (toUInt32?_ofNat _) (toUInt32?_ofNat _)

theorem Span.ofJson?_toJson {s : Span} {n : Nat} (h : s.toJson.depth ≤ n) :
    Span.ofJson? n s.toJson = some s := by
  obtain ⟨k, rfl, hk⟩ := depth_ofFields_le h
  simp only [List.forall_mem_cons] at hk
  have hrecord : s.toJson.record? ["start", "end"] = _ :=
    record?_ofFields [s.start.toJson, s.stop.toJson] (by decide) rfl
  simp [Span.ofJson?, hrecord, Location.ofJson?_toJson hk.1, Location.ofJson?_toJson hk.2.1]

theorem Site.ofFields?_of_parts {k : Nat} {id span text : Json} {site : Site}
    (hid : id.toUInt32? = some site.id) (hspan : Span.ofJson? k span = some site.span)
    (htext : text.toText? = some site.text) :
    Site.ofFields? k (some id) (some span) (some text) = some site := by
  simp [Site.ofFields?, getOr, hid, hspan, htext]

/-- A node takes one level, and its site is read back. -/
theorem Site.read_toJson {site : Site} {kind : Json} {n : Nat} (h : (site.toJson kind).depth ≤ n) :
    ∃ k id span text, n = k + 1 ∧ kind.depth ≤ k ∧
      (site.toJson kind).record? ["node_id", "kind", "span", "text"] =
        some [some id, some kind, some span, some text] ∧
      Site.ofFields? k (some id) (some span) (some text) = some site := by
  obtain ⟨k, rfl, hk⟩ := depth_ofFields_le h
  simp only [List.forall_mem_cons] at hk
  exact ⟨k, _, _, _, rfl, hk.2.1, record?_ofFields [_, _, _, _] (by decide) rfl,
    ofFields?_of_parts (toUInt32?_ofNat _) (Span.ofJson?_toJson hk.2.2.1) (toText?_ofText _)⟩

/-- An alternative with content takes one level. -/
theorem depth_variant_le {tag : String} {content : Json} {n : Nat}
    (h : (variant tag content).depth ≤ n) : ∃ k, n = k + 1 ∧ content.depth ≤ k := by
  obtain ⟨k, rfl, hk⟩ := depth_ofFields_le h
  exact ⟨k, rfl, hk _ List.mem_cons_self⟩

/-- Nodes are read by the tags and the contents of their kinds. -/
def ReadsNodes {α : Type} (read? : Nat → Json → Option α)
    (ofContent? : Nat → Site → String → Json → Option α) : Prop :=
  ∀ {k : Nat} {site : Site} {tag : String} {content j id span text : Json},
    j.record? ["node_id", "kind", "span", "text"] =
      some [some id, some (variant tag content), some span, some text] →
    Site.ofFields? (k + 1) (some id) (some span) (some text) = some site →
    read? (k + 2) j = ofContent? k site tag content

namespace ReadsNodes

variable {α : Type} {read? : Nat → Json → Option α}
  {ofContent? : Nat → Site → String → Json → Option α} {site : Site} {tag : String} {n : Nat}

/-- Reading a node comes down to reading the content of its kind. -/
theorem read_variant (hnode : ReadsNodes read? ofContent?) {content : Json}
    (h : (site.toJson (variant tag content)).depth ≤ n) : ∃ k, content.depth ≤ k ∧
      read? n (site.toJson (variant tag content)) = ofContent? k site tag content := by
  obtain ⟨k, id, span, text, rfl, hkind, hrecord, hsite⟩ := Site.read_toJson h
  obtain ⟨k, rfl, hcontent⟩ := depth_variant_le hkind
  exact ⟨k, hcontent, hnode hrecord hsite⟩

/-- Reading a node whose content is a record comes down to reading the fields. -/
theorem read_record (hnode : ReadsNodes read? ofContent?) (names : List String) (values : List Json)
    (hnames : names.Nodup) (hlength : names.length = values.length)
    (h : (site.toJson (variant tag (ofFields (names.zip values)))).depth ≤ n) :
    ∃ k content, (∀ v ∈ values, v.depth ≤ k) ∧ content.record? names = some (values.map some) ∧
      read? n (site.toJson (variant tag (ofFields (names.zip values)))) =
        ofContent? (k + 1) site tag content := by
  obtain ⟨k, hcontent, hread⟩ := hnode.read_variant h
  obtain ⟨k, rfl, hfields⟩ := depth_ofFields_le hcontent
  refine ⟨k, _, fun v hv => ?_, record?_ofFields values hnames hlength, hread⟩
  obtain ⟨i, hi, rfl⟩ := List.getElem_of_mem hv
  exact hfields (names[i], values[i]) (List.mem_iff_getElem.2 ⟨i, by simp; omega, by simp⟩)

end ReadsNodes

/-! ### Expressions -/

theorem readsNodes_expr : ReadsNodes Expr.ofJson? exprOfContent? := by
  intro k site tag content j id span text hrecord hsite
  simp only [Expr.ofJson?, hrecord, hsite, Option.bind_eq_bind, Option.bind_some]
  rfl

theorem exprsToJson_eq (float : Double → Json) (es : List Expr) :
    exprsToJson float es = es.map (Expr.toJson float) := by
  induction es with
  | nil => rfl
  | cons e es ih => rw [exprsToJson, ih, List.map_cons]

theorem keywordsToJson_eq (float : Double → Json) (ks : List (String × Expr)) :
    keywordsToJson float ks =
      ks.map fun k => ofFields [("name", ofText k.1), ("value", k.2.toJson float)] := by
  induction ks with
  | nil => rfl
  | cons k ks ih => rw [keywordsToJson, ih, List.map_cons]

section

variable {float : Double → Json}

/-- The expression is read back from what is written, if the levels suffice. -/
def Expr.ReadBack (float : Double → Json) (e : Expr) : Prop :=
  ∀ {n : Nat}, (e.toJson float).depth ≤ n → Expr.ofJson? n (e.toJson float) = some e

theorem mapM_exprsToJson {es : List Expr} (hes : ∀ e ∈ es, e.ReadBack float) {k : Nat}
    (hk : ∀ j ∈ exprsToJson float es, j.depth ≤ k) :
    (exprsToJson float es).mapM (Expr.ofJson? k) = some es := by
  rw [exprsToJson_eq] at hk ⊢
  exact mapM_map_eq_some fun e he => hes e he (hk _ (List.mem_map_of_mem he))

theorem exprList?_toJson {es : List Expr} (hes : ∀ e ∈ es, e.ReadBack float) {n : Nat}
    (h : (Json.array (exprsToJson float es)).depth ≤ n) :
    exprList? n (.array (exprsToJson float es)) = some es := by
  obtain ⟨k, rfl, hk⟩ := depth_array_le h
  exact mapM_exprsToJson hes hk

theorem compareOps?_toJson {ops : List CompareOp} {n : Nat}
    (h : (ofList (fun op : CompareOp => ofText op.tag) ops).depth ≤ n) :
    compareOps? n (ofList (fun op => ofText op.tag) ops) = some ops := by
  obtain ⟨k, rfl, -⟩ := depth_array_le h
  exact mapM_map_eq_some fun op _ => ofTag?_compareOp op k

theorem keyword?_toJson {name : String} {value : Expr} (hvalue : value.ReadBack float) {n : Nat}
    (h : (ofFields [("name", ofText name), ("value", value.toJson float)]).depth ≤ n) :
    keyword? n (ofFields [("name", ofText name), ("value", value.toJson float)]) =
      some (name, value) := by
  obtain ⟨k, rfl, hk⟩ := depth_ofFields_le h
  simp only [List.forall_mem_cons] at hk
  have hrecord : (ofFields [("name", ofText name), ("value", value.toJson float)]).record?
      ["name", "value"] = _ := record?_ofFields [_, _] (by decide) rfl
  simp [keyword?, hrecord, hvalue hk.2.1]

theorem keywordList?_toJson {ks : List Keyword} (hks : ∀ k ∈ ks, k.2.ReadBack float) {n : Nat}
    (h : (Json.array (keywordsToJson float ks)).depth ≤ n) :
    keywordList? n (.array (keywordsToJson float ks)) = some ks := by
  obtain ⟨d, rfl, hd⟩ := depth_array_le h
  rw [keywordsToJson_eq] at hd ⊢
  exact mapM_map_eq_some fun k hk => keyword?_toJson (hks k hk) (hd _ (List.mem_map_of_mem hk))

/-- **An expression is read back from its document.** -/
theorem Expr.readBack (hfloat : ∀ x, (float x).toDouble? = some x) (e : Expr) :
    e.ReadBack float := by
  induction e using Expr.induction with
  | step e ih =>
    intro n h
    cases e with
    | none site =>
      obtain ⟨k, id, span, text, rfl, -, hrecord, hsite⟩ := Site.read_toJson h
      simp only [Expr.ofJson?, Expr.toJson, hrecord, hsite, Option.bind_eq_bind, Option.bind_some]
      cases k <;> rfl
    | int site value | float site value | bool site value | str site value | name site value =>
      obtain ⟨k, -, hread⟩ := readsNodes_expr.read_variant h
      refine hread.trans ?_
      -- a scalar opens no level, so it is read even if none is left
      cases k <;> simp [exprOfContent?, leafOfContent?, hfloat, toBool?]
    | binary site op left right =>
      obtain ⟨k, content, hk, hrecord, hread⟩ :=
        readsNodes_expr.read_record ["op", "left", "right"] [_, _, _] (by decide) rfl h
      simp only [List.forall_mem_cons] at hk
      refine hread.trans ?_
      simp [exprOfContent?, hrecord, ih left (by simp [children]) hk.2.1,
        ih right (by simp [children]) hk.2.2.1]
    | boolOp site op values =>
      obtain ⟨k, content, hk, hrecord, hread⟩ :=
        readsNodes_expr.read_record ["op", "values"] [_, _] (by decide) rfl h
      simp only [List.forall_mem_cons] at hk
      rw [children] at ih
      refine hread.trans ?_
      simp [exprOfContent?, hrecord, exprList?_toJson ih hk.2.1]
    | unary site op operand =>
      obtain ⟨k, content, hk, hrecord, hread⟩ :=
        readsNodes_expr.read_record ["op", "operand"] [_, _] (by decide) rfl h
      simp only [List.forall_mem_cons] at hk
      refine hread.trans ?_
      simp [exprOfContent?, hrecord, ih operand (by simp [children]) hk.2.1]
    | compare site left ops comparators =>
      obtain ⟨k, content, hk, hrecord, hread⟩ :=
        readsNodes_expr.read_record ["left", "ops", "comparators"] [_, _, _] (by decide) rfl h
      simp only [List.forall_mem_cons] at hk
      simp only [children, List.forall_mem_cons] at ih
      refine hread.trans ?_
      simp [exprOfContent?, hrecord, ih.1 hk.1, compareOps?_toJson hk.2.1,
        exprList?_toJson ih.2 hk.2.2.1]
    | call site function arguments keywords =>
      obtain ⟨k, content, hk, hrecord, hread⟩ :=
        readsNodes_expr.read_record ["function", "arguments", "keywords"] [_, _, _]
          (by decide) rfl h
      simp only [List.forall_mem_cons] at hk
      simp only [children, List.cons_append, List.forall_mem_cons, List.forall_mem_append,
        List.forall_mem_map] at ih
      refine hread.trans ?_
      simp [exprOfContent?, hrecord, getOr, ih.1 hk.1, exprList?_toJson ih.2.1 hk.2.1,
        keywordList?_toJson ih.2.2 hk.2.2.1]
    | attr site object name =>
      obtain ⟨k, content, hk, hrecord, hread⟩ :=
        readsNodes_expr.read_record ["object", "attr"] [_, _] (by decide) rfl h
      simp only [List.forall_mem_cons] at hk
      refine hread.trans ?_
      simp [exprOfContent?, hrecord, ih object (by simp [children]) hk.1]
    | list site items | tuple site items | set site items =>
      obtain ⟨k, hcontent, hread⟩ := readsNodes_expr.read_variant h
      obtain ⟨k, rfl, hk⟩ := depth_array_le hcontent
      rw [children] at ih
      refine hread.trans ?_
      simp [exprOfContent?, toItems?, mapM_exprsToJson ih hk]
    | dict site keys values =>
      obtain ⟨k, content, hk, hrecord, hread⟩ :=
        readsNodes_expr.read_record ["keys", "values"] [_, _] (by decide) rfl h
      simp only [List.forall_mem_cons] at hk
      simp only [children, List.forall_mem_append] at ih
      refine hread.trans ?_
      simp [exprOfContent?, hrecord, exprList?_toJson ih.1 hk.1, exprList?_toJson ih.2 hk.2.1]
    | named site target value =>
      obtain ⟨k, content, hk, hrecord, hread⟩ :=
        readsNodes_expr.read_record ["target", "value"] [_, _] (by decide) rfl h
      simp only [List.forall_mem_cons] at hk
      refine hread.trans ?_
      simp [exprOfContent?, hrecord, ih target (by simp [children]) hk.1,
        ih value (by simp [children]) hk.2.1]
    | other site construct =>
      obtain ⟨k, content, -, hrecord, hread⟩ :=
        readsNodes_expr.read_record ["construct"] [_] (by decide) rfl h
      refine hread.trans ?_
      simp [exprOfContent?, hrecord]

/-! ### Statements -/

/-- What may be missing is read back, if nothing that is there is written as `null`. -/
theorem getOption_ofOption {α : Type} {write : α → Json} {read? : Json → Option α} {x : Option α}
    (hnull : ∀ a, (write a).isNull = false) (h : ∀ a, x = some a → read? (write a) = some a) :
    getOption read? (some (ofOption write x)) = some x := by
  cases x with
  | none => rfl
  | some a =>
    have hread := h a rfl
    have hsome := hnull a
    rw [ofOption]
    generalize write a = j at hread hsome
    cases j with
    | null => cases hsome
    | _ => simp [getOption, hread]

theorem Expr.isNull_toJson (e : Expr) : (e.toJson float).isNull = false := by
  cases e <;> rfl

theorem depth_ofOption_le {α : Type} {write : α → Json} {x : Option α} {n : Nat}
    (h : (ofOption write x).depth ≤ n) (a : α) (ha : x = some a) : (write a).depth ≤ n := by
  rwa [ha] at h

section

variable (hfloat : ∀ x, (float x).toDouble? = some x)

include hfloat

theorem Parameter.ofJson?_toJson {p : Parameter} {n : Nat} (h : (p.toJson float).depth ≤ n) :
    Parameter.ofJson? n (p.toJson float) = some p := by
  obtain ⟨k, rfl, hk⟩ := depth_ofFields_le h
  simp only [List.forall_mem_cons] at hk
  have hrecord : (p.toJson float).record? ["name", "annotation", "default", "kind"] = _ :=
    record?_ofFields [_, _, _, _] (by decide) rfl
  have hhint : getOption toText? (some (ofOption ofText p.hint)) = some p.hint :=
    getOption_ofOption (fun _ => rfl) fun _ _ => rfl
  have hdefault : getOption (Expr.ofJson? k) (some (ofOption (Expr.toJson float) p.default)) =
      some p.default :=
    getOption_ofOption Expr.isNull_toJson fun e he =>
      Expr.readBack hfloat e (depth_ofOption_le hk.2.2.1 e he)
  simp [Parameter.ofJson?, hrecord, hhint, hdefault, getOr]

theorem parameterList?_toJson {ps : List Parameter} {n : Nat}
    (h : (ofList (Parameter.toJson float) ps).depth ≤ n) :
    parameterList? n (ofList (Parameter.toJson float) ps) = some ps := by
  obtain ⟨k, rfl, hk⟩ := depth_array_le h
  exact mapM_map_eq_some fun p hp => p.ofJson?_toJson hfloat (hk _ (List.mem_map_of_mem hp))

end

theorem readsNodes_stmt : ReadsNodes Stmt.ofJson? stmtOfContent? := by
  intro k site tag content j id span text hrecord hsite
  simp only [Stmt.ofJson?, hrecord, hsite, Option.bind_eq_bind, Option.bind_some]
  rfl

theorem stmtsToJson_eq (float : Double → Json) (ss : List Stmt) :
    stmtsToJson float ss = ss.map (Stmt.toJson float) := by
  induction ss with
  | nil => rfl
  | cons s ss ih => rw [stmtsToJson, ih, List.map_cons]

/-- The statement is read back from what is written, if the levels suffice. -/
def Stmt.ReadBack (float : Double → Json) (s : Stmt) : Prop :=
  ∀ {n : Nat}, (s.toJson float).depth ≤ n → Stmt.ofJson? n (s.toJson float) = some s

theorem stmtList?_toJson {ss : List Stmt} (hss : ∀ s ∈ ss, s.ReadBack float) {n : Nat}
    (h : (Json.array (stmtsToJson float ss)).depth ≤ n) :
    stmtList? n (.array (stmtsToJson float ss)) = some ss := by
  obtain ⟨k, rfl, hk⟩ := depth_array_le h
  rw [stmtsToJson_eq] at hk ⊢
  exact mapM_map_eq_some fun s hs => hss s hs (hk _ (List.mem_map_of_mem hs))

/-- **A statement is read back from its document.** -/
theorem Stmt.readBack (hfloat : ∀ x, (float x).toDouble? = some x) (s : Stmt) :
    s.ReadBack float := by
  have hexpr : ∀ e : Expr, e.ReadBack float := Expr.readBack hfloat
  induction s using Stmt.induction with
  | step s ih =>
    intro n h
    cases s with
    | brk site | cont site | pass site =>
      obtain ⟨k, id, span, text, rfl, -, hrecord, hsite⟩ := Site.read_toJson h
      simp only [Stmt.ofJson?, Stmt.toJson, hrecord, hsite, Option.bind_eq_bind, Option.bind_some]
      cases k <;> rfl
    | docString site content | comment site content =>
      obtain ⟨k, -, hread⟩ := readsNodes_stmt.read_variant h
      refine hread.trans ?_
      cases k <;> simp [stmtOfContent?, simpleOfContent?]
    | expr site value =>
      obtain ⟨k, hk, hread⟩ := readsNodes_stmt.read_variant h
      refine hread.trans ?_
      have hvalue := hexpr value hk
      cases k <;> simp [stmtOfContent?, simpleOfContent?, hvalue]
    | ret site value =>
      obtain ⟨k, hk, hread⟩ := readsNodes_stmt.read_variant h
      refine hread.trans ?_
      -- no value is written as `null`, and no expression is
      have hvalue : getOption (Expr.ofJson? k) (some (ofOption (Expr.toJson float) value)) =
          some value :=
        getOption_ofOption Expr.isNull_toJson fun e he => hexpr e (depth_ofOption_le hk e he)
      cases k <;> simp [stmtOfContent?, simpleOfContent?, hvalue]
    | assign site targets value =>
      obtain ⟨k, content, hk, hrecord, hread⟩ :=
        readsNodes_stmt.read_record ["targets", "value"] [_, _] (by decide) rfl h
      simp only [List.forall_mem_cons] at hk
      refine hread.trans ?_
      simp [stmtOfContent?, hrecord, exprList?_toJson (fun e _ => hexpr e) hk.1,
        hexpr value hk.2.1]
    | augAssign site target op value =>
      obtain ⟨k, content, hk, hrecord, hread⟩ :=
        readsNodes_stmt.read_record ["target", "op", "value"] [_, _, _] (by decide) rfl h
      simp only [List.forall_mem_cons] at hk
      refine hread.trans ?_
      simp [stmtOfContent?, hrecord, hexpr target hk.1, hexpr value hk.2.2.1]
    | ifElse site c body orelse | whileLoop site c body orelse =>
      obtain ⟨k, content, hk, hrecord, hread⟩ :=
        readsNodes_stmt.read_record ["condition", "body", "orelse"] [_, _, _] (by decide) rfl h
      simp only [List.forall_mem_cons] at hk
      simp only [blocks, List.forall_mem_cons] at ih
      refine hread.trans ?_
      simp [stmtOfContent?, hrecord, getOr, hexpr c hk.1, stmtList?_toJson ih.1 hk.2.1,
        stmtList?_toJson ih.2.1 hk.2.2.1]
    | forLoop site target iter body orelse =>
      obtain ⟨k, content, hk, hrecord, hread⟩ :=
        readsNodes_stmt.read_record ["target", "iter", "body", "orelse"] [_, _, _, _]
          (by decide) rfl h
      simp only [List.forall_mem_cons] at hk
      simp only [blocks, List.forall_mem_cons] at ih
      refine hread.trans ?_
      simp [stmtOfContent?, hrecord, getOr, hexpr target hk.1, hexpr iter hk.2.1,
        stmtList?_toJson ih.1 hk.2.2.1, stmtList?_toJson ih.2.1 hk.2.2.2.1]
    | functionDef site name parameters returns decorators body =>
      obtain ⟨k, content, hk, hrecord, hread⟩ :=
        readsNodes_stmt.read_record ["name", "parameters", "returns", "decorators", "body"]
          [_, _, _, _, _] (by decide) rfl h
      simp only [List.forall_mem_cons] at hk
      simp only [blocks, List.forall_mem_cons] at ih
      have hreturns : getOption toText? (some (ofOption ofText returns)) = some returns :=
        getOption_ofOption (fun _ => rfl) fun _ _ => rfl
      refine hread.trans ?_
      simp [stmtOfContent?, hrecord, getOr, hreturns, parameterList?_toJson hfloat hk.2.1,
        exprList?_toJson (fun e _ => hexpr e) hk.2.2.2.1, stmtList?_toJson ih.1 hk.2.2.2.2.1]
    | importNames site names =>
      obtain ⟨k, content, hk, hrecord, hread⟩ :=
        readsNodes_stmt.read_record ["names"] [_] (by decide) rfl h
      obtain ⟨k, rfl, -⟩ := depth_array_le (hk _ List.mem_cons_self)
      refine hread.trans ?_
      simp [stmtOfContent?, hrecord]
    | importFrom site package names =>
      obtain ⟨k, content, hk, hrecord, hread⟩ :=
        readsNodes_stmt.read_record ["module", "names"] [_, _] (by decide) rfl h
      simp only [List.forall_mem_cons] at hk
      obtain ⟨k, rfl, -⟩ := depth_array_le hk.2.1
      refine hread.trans ?_
      simp [stmtOfContent?, hrecord]
    | other site construct =>
      obtain ⟨k, content, -, hrecord, hread⟩ :=
        readsNodes_stmt.read_record ["construct"] [_] (by decide) rfl h
      refine hread.trans ?_
      simp [stmtOfContent?, hrecord]

/-! ### Scripts -/

theorem Module.ofJson?_of_record {k : Nat} {j id file body span : Json} {m : Module}
    (hrecord : j.record? ["node_id", "filename", "body", "span"] =
      some [some id, some file, some body, some span])
    (hid : id.toUInt32? = some m.id) (hfile : file.toText? = some m.file)
    (hbody : stmtList? k body = some m.body) (hspan : Span.ofJson? k span = some m.span) :
    Module.ofJson? (k + 1) j = some m := by
  simp [Module.ofJson?, hrecord, getOr, hid, hfile, hbody, hspan]

/-- **A script is read back from its document.** -/
theorem Module.ofJson?_toJson (hfloat : ∀ x, (float x).toDouble? = some x) {m : Module} {n : Nat}
    (h : (m.toJson float).depth ≤ n) : Module.ofJson? n (m.toJson float) = some m := by
  obtain ⟨k, rfl, hk⟩ := depth_ofFields_le h
  simp only [List.forall_mem_cons] at hk
  exact ofJson?_of_record (record?_ofFields [_, _, _, _] (by decide) rfl) (toUInt32?_ofNat _)
    (toText?_ofText _) (stmtList?_toJson (fun s _ => s.readBack hfloat) hk.2.2.1)
    (Span.ofJson?_toJson hk.2.2.2.1)

end

/-! ### Numbers in documents -/

theorem legible_ofUInt32 (n : UInt32) : (ofNat n.toNat).Legible := by
  refine legible_ofInt ?_
  have := n.toNat_lt
  show (n.toNat : Int).natAbs < 18446744073709551616
  omega

theorem legible_ofInt64 (n : Int64) : (ofInt n.toInt).Legible := by
  refine legible_ofInt ?_
  have := n.le_toInt
  have := n.toInt_lt
  show n.toInt.natAbs < 18446744073709551616
  omega

theorem Location.legible_toJson (l : Location) : l.toJson.Legible := by
  simp [Location.toJson, legible_ofFields, legible_ofText, legible_ofUInt32]

theorem Span.legible_toJson (s : Span) : s.toJson.Legible := by
  simp [Span.toJson, legible_ofFields, Location.legible_toJson]

/-- A node is legible if its kind is. -/
theorem Site.legible_toJson {site : Site} {kind : Json} (h : kind.Legible) :
    (site.toJson kind).Legible := by
  simp [Site.toJson, legible_ofFields, legible_ofText, legible_ofUInt32, Span.legible_toJson, h]

theorem legible_variant {tag : String} {content : Json} (h : content.Legible) :
    (variant tag content).Legible := by
  simp [variant, legible_ofFields, h]

theorem legible_ofOption {α : Type} {write : α → Json} {x : Option α}
    (h : ∀ a ∈ x, (write a).Legible) : (ofOption write x).Legible := by
  cases x with
  | none => exact legible_null
  | some a => exact h a rfl

theorem legible_ofList {α : Type} {write : α → Json} {xs : List α}
    (h : ∀ a ∈ xs, (write a).Legible) : (ofList write xs).Legible :=
  legible_array.2 (List.forall_mem_map.2 h)

/-- The number, if the expression is a literal with a point. -/
def Expr.asFloat : Expr → Option Double
  | .float _ x => some x
  | _ => Option.none

/-- The numbers of the literals with a point in an expression. -/
def Expr.floats (e : Expr) : List Double := e.nodes.filterMap asFloat

/-- The numbers of the literals with a point in a statement and in those nested in it. -/
def Stmt.floats (s : Stmt) : List Double :=
  s.nested.flatMap fun t => t.expressions.flatMap Expr.floats

/-- The numbers of the literals with a point in a script. -/
def Module.floats (m : Module) : List Double := m.body.flatMap Stmt.floats

theorem Expr.floats_of_mem_children {c e : Expr} (hc : c ∈ e.children) : c.floats ⊆ e.floats := by
  intro x hx
  obtain ⟨n, hn, hfloat⟩ := List.mem_filterMap.1 hx
  exact List.mem_filterMap.2 ⟨n, mem_nodes_of_mem_children hc hn, hfloat⟩

section

variable {float : Double → Json}

theorem legible_exprs {es : List Expr} :
    (Json.array (exprsToJson float es)).Legible ↔ ∀ e ∈ es, (e.toJson float).Legible := by
  rw [exprsToJson_eq, legible_array, List.forall_mem_map]

theorem legible_keywords {ks : List Keyword} :
    (Json.array (keywordsToJson float ks)).Legible ↔ ∀ k ∈ ks, (k.2.toJson float).Legible := by
  rw [keywordsToJson_eq, legible_array, List.forall_mem_map]
  simp [legible_ofFields, legible_ofText]

/-- The document of an expression is legible if its floats are. -/
theorem Expr.legible_toJson {e : Expr} (h : ∀ x ∈ e.floats, (float x).Legible) :
    (e.toJson float).Legible := by
  induction e using Expr.induction with
  | step e ih =>
    have hbelow : ∀ c ∈ e.children, (c.toJson float).Legible :=
      fun c hc => ih c hc fun x hx => h x (floats_of_mem_children hc hx)
    cases e with
    | none site => exact Site.legible_toJson (legible_ofText _)
    | float site x => exact Site.legible_toJson (legible_variant (h x List.mem_cons_self))
    | int site value => exact Site.legible_toJson (legible_variant (legible_ofInt64 value))
    | bool site value => exact Site.legible_toJson (legible_variant (legible_bool value))
    | str site text | name site text =>
      exact Site.legible_toJson (legible_variant (legible_ofText text))
    | list site items | tuple site items | set site items =>
      exact Site.legible_toJson (legible_variant (legible_exprs.2 hbelow))
    | _ =>
      -- what is left are records of tags, texts and the expressions right below
      simp only [children, List.cons_append, List.forall_mem_cons, List.forall_mem_append,
        List.forall_mem_map, ← legible_exprs, ← legible_keywords] at hbelow
      refine Site.legible_toJson (legible_variant (legible_ofFields.2 ?_))
      simp [hbelow, legible_ofText, legible_ofList]

theorem legible_parameters {ps : List Parameter}
    (h : ∀ e ∈ ps.filterMap Parameter.default, (e.toJson float).Legible) :
    (ofList (Parameter.toJson float) ps).Legible := by
  refine legible_ofList fun p hp => legible_ofFields.2 ?_
  have hdefault : (ofOption (Expr.toJson float) p.default).Legible :=
    legible_ofOption fun e he => h e (List.mem_filterMap.2 ⟨p, hp, he⟩)
  have hhint : (ofOption ofText p.hint).Legible := legible_ofOption fun s _ => legible_ofText s
  simp [hdefault, hhint, legible_ofText]

/-- The document of a statement is legible if its floats are. -/
theorem Stmt.legible_toJson {s : Stmt} (h : ∀ x ∈ s.floats, (float x).Legible) :
    (s.toJson float).Legible := by
  induction s using Stmt.induction with
  | step s ih =>
    have hexprs : ∀ e ∈ s.expressions, (e.toJson float).Legible := fun e he =>
      Expr.legible_toJson fun x hx => h x (List.mem_flatMap.2
        ⟨s, s.mem_nested_self, List.mem_flatMap.2 ⟨e, he, hx⟩⟩)
    have hblocks : ∀ b ∈ s.blocks, (Json.array (stmtsToJson float b)).Legible := by
      intro b hb
      rw [stmtsToJson_eq]
      refine legible_ofList fun t ht => ih b hb t ht fun x hx => ?_
      obtain ⟨u, hu, hx⟩ := List.mem_flatMap.1 hx
      exact h x (List.mem_flatMap.2 ⟨u, nested_subset_of_mem_blocks hb ht hu, hx⟩)
    cases s with
    | brk site | cont site | pass site => exact Site.legible_toJson (legible_ofText _)
    | docString site content | comment site content =>
      exact Site.legible_toJson (legible_variant (legible_ofText _))
    | expr site value =>
      exact Site.legible_toJson (legible_variant (hexprs value List.mem_cons_self))
    | ret site value =>
      refine Site.legible_toJson (legible_variant (legible_ofOption fun e he => hexprs e ?_))
      exact Option.mem_toList.2 he
    | functionDef site name parameters returns decorators body =>
      simp only [expressions, List.forall_mem_append] at hexprs
      simp only [blocks, List.forall_mem_cons] at hblocks
      have hreturns : (ofOption ofText returns).Legible :=
        legible_ofOption fun s _ => legible_ofText s
      refine Site.legible_toJson (legible_variant (legible_ofFields.2 ?_))
      simp [hblocks, hreturns, legible_parameters hexprs.2, legible_exprs.2 hexprs.1,
        legible_ofText]
    | _ =>
      simp only [expressions, List.forall_mem_cons, List.forall_mem_append,
        ← legible_exprs] at hexprs
      simp only [blocks, List.forall_mem_cons] at hblocks
      refine Site.legible_toJson (legible_variant (legible_ofFields.2 ?_))
      simp [hexprs, hblocks, legible_ofText, legible_ofList]

theorem Module.legible_toJson {m : Module} (h : ∀ x ∈ m.floats, (float x).Legible) :
    (m.toJson float).Legible := by
  have hbody : (Json.array (stmtsToJson float m.body)).Legible := by
    rw [stmtsToJson_eq]
    exact legible_ofList fun s hs => Stmt.legible_toJson fun x hx =>
      h x (List.mem_flatMap.2 ⟨s, hs, hx⟩)
  refine legible_ofFields.2 ?_
  simp [hbody, legible_ofUInt32, legible_ofText, Span.legible_toJson]

end

/-! ### Loading -/

/-- The document of a script, with its floats as they are. -/
def Module.document (m : Module) : Json := m.toJson fun x => .number (.ofDouble x)

theorem Module.ofDocument?_document {m : Module} (h : m.document.depth ≤ maxDepth) :
    Module.ofDocument? m.document = some m.number := by
  rw [ofDocument?, document, ofJson?_toJson (fun _ => rfl) h, Option.map_some]

/-- **Loading undoes saving.**  From every text of its document, a script is loaded with its nodes
numbered in order and all else as it was, so a numbered script is loaded as it is.  Its document has
such a text, if each of its floats is read from its own. -/
theorem load_document (m : Module) (hsize : m.sites.length < UInt32.size)
    (hdepth : m.document.depth ≤ maxDepth) :
    ∃ m' : Module, m'.IsNumbered ∧ m'.unnumbered = m.unnumbered ∧ (m.IsNumbered → m' = m) ∧
      (∀ text, Json.parse? text = some m.document → Module.load? text = some m') ∧
      ((∀ x ∈ m.floats, (Number.ofDouble x).ReadsBack) →
        Module.load? m.document.compact = some m') := by
  have hload : ∀ text, Json.parse? text = some m.document →
      Module.load? text = some m.number := by
    intro text htext
    rw [Module.load?, htext, Option.bind_some, Module.ofDocument?_document hdepth]
  refine ⟨m.number, Module.isNumbered_number hsize, m.unnumbered_number,
    Module.number_of_isNumbered, hload, fun hfloats => hload _ (parse?_compact ?_)⟩
  exact Module.legible_toJson fun x hx => legible_number.2 (hfloats x hx)

open Compose in
/-- A script as it is found: with a function, a string that needs escapes, a float, and numbers that
are not in order. -/
def filed : Module :=
  ⟨7, "notes/script.py",
    [functionDef "half" [⟨"x", some "float", some (float ⟨false, 1022 * Double.block, by decide⟩),
        .positional⟩] Option.none
      [ifElse (compare (name "x") [(.lt, int (-3))]) [ret Option.none]
        [ret (some (binary (name "x") .div (int 2)))]],
     expr (call (name "print") [str "a \"b\"\n\\"] [("sep", str "\x01")]),
     docString "done"],
    .unknown⟩

/-- It is loaded from its text, and numbered. -/
theorem filed_loads :
    filed.sites.length < UInt32.size ∧ filed.document.depth ≤ maxDepth ∧
      (∀ x ∈ filed.floats, (Number.ofDouble x).ReadsBack) ∧ filed.floats ≠ [] ∧
      ∃ m', m'.IsNumbered ∧ m'.unnumbered = filed.unnumbered ∧
        Module.load? filed.document.compact = some m' := by
  have hsize : filed.sites.length < UInt32.size := by decide +kernel
  have hdepth : filed.document.depth ≤ maxDepth := by decide +kernel
  have hfloats : ∀ x ∈ filed.floats, (Number.ofDouble x).ReadsBack := by decide +kernel
  obtain ⟨m', hnumbered, hsame, -, -, htext⟩ := load_document filed hsize hdepth
  exact ⟨hsize, hdepth, hfloats, by decide +kernel, m', hnumbered, hsame, htext hfloats⟩

end StaticScript.Source
