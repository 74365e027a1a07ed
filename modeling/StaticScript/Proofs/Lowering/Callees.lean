import StaticScript.Proofs.Lowering.Calls
import StaticScript.Proofs.Lowering.Origin

/-!
# What is called

An emitted statement calls a function of the program exactly if the statement that it stands for
does, unless something in that statement was left out (`Emits.sameCalls`).  Lowering copies and
regroups what an expression holds, but it drops no operand and no argument, and the only calls that
it adds are those of the standard library (`mem_callees_lower`).
-/

namespace StaticScript

namespace Target

/-- The name of the function that the expression itself calls. -/
def Expr.callee? : Expr → Option String
  | .call function _ _ => some function
  | _ => none

/-- The names of the functions that are called in the expression. -/
def Expr.callees (e : Expr) : List String := e.nodes.filterMap callee?

/-- The names of the functions that are called in expressions. -/
def Expr.calleesList (es : List Expr) : List String := (nodesList es).filterMap callee?

namespace Stmt

/-- The names of the functions that are called in the statement and in those nested in it. -/
def callees (s : Stmt) : List String := s.exprNodes.filterMap Expr.callee?

/-- The names of the functions that are called in a block. -/
def calleesBlock (b : List Stmt) : List String := (exprNodesBlock b).filterMap Expr.callee?

/-- The names of the functions that are called in the branches of a conditional. -/
def calleesBranches (branches : List (Expr × List Stmt)) : List String :=
  (exprNodesBranches branches).filterMap Expr.callee?

/-- The names of the functions that are called in the `else` of a conditional. -/
def calleesElse (orelse : Option (List Stmt)) : List String :=
  (exprNodesElse orelse).filterMap Expr.callee?

theorem calleesBlock_append (b bs : List Stmt) :
    calleesBlock (b ++ bs) = calleesBlock b ++ calleesBlock bs := by
  simp [calleesBlock, exprNodesBlock_append]

theorem calleesBlock_singleton (s : Stmt) : calleesBlock [s] = s.callees := by
  simp [calleesBlock, callees]

theorem calleesBlock_cons (s : Stmt) (b : List Stmt) :
    calleesBlock (s :: b) = s.callees ++ calleesBlock b := by
  simp [calleesBlock, callees, exprNodesBlock]

theorem calleesBranches_cons (c : Expr) (b : List Stmt) (branches : List (Expr × List Stmt)) :
    calleesBranches ((c, b) :: branches) =
      c.callees ++ calleesBlock b ++ calleesBranches branches := by
  simp [calleesBranches, Expr.callees, calleesBlock, exprNodesBranches]

theorem callees_ifElse (branches : List (Expr × List Stmt)) (orelse : Option (List Stmt)) :
    (ifElse branches orelse).callees = calleesBranches branches ++ calleesElse orelse := by
  simp [callees, calleesBranches, calleesElse, exprNodes]

theorem callees_whileLoop (c : Expr) (b : List Stmt) :
    (whileLoop c b).callees = c.callees ++ calleesBlock b := by
  simp [callees, Expr.callees, calleesBlock, exprNodes]

theorem callees_forLoop (x : String) (start stop : Expr) (step : Int64) (b : List Stmt) :
    (forLoop x start stop step b).callees = start.callees ++ stop.callees ++ calleesBlock b := by
  simp [callees, Expr.callees, calleesBlock, exprNodes]

theorem callees_print (es : List Expr) : (print es).callees = Expr.calleesList es := by
  simp [callees, Expr.calleesList, exprNodes]

end Stmt

theorem Expr.mem_calleesList {g : String} {es : List Expr} :
    g ∈ calleesList es ↔ ∃ e ∈ es, g ∈ e.callees := by
  rw [calleesList, nodesList_eq, List.filterMap_flatMap, List.mem_flatMap]
  rfl

theorem Expr.each_callee?_ne {g : String} {e : Expr} :
    e.Each (fun n => n.callee? ≠ some g) ↔ g ∉ e.callees := by
  simp [Each, callees, List.mem_filterMap]

end Target

/-! ### Calls of the script -/

namespace Source

theorem Expr.mem_callees_iff {g : String} {e : Expr} :
    g ∈ e.callees ↔
      (∃ site function arguments keywords,
        e = .call site function arguments keywords ∧ function.asName = some g) ∨
      ∃ c ∈ e.children, g ∈ c.callees := by
  constructor
  · intro h
    obtain ⟨n, hn, hcall⟩ := List.mem_filterMap.1 h
    rw [nodes_eq, List.mem_cons, List.mem_flatMap] at hn
    rcases hn with rfl | ⟨c, hc, hn⟩
    · cases n with
      | call site function arguments keywords => exact .inl ⟨_, _, _, _, rfl, hcall⟩
      | _ => cases hcall
    · exact .inr ⟨c, hc, List.mem_filterMap.2 ⟨n, hn, hcall⟩⟩
  · rintro (⟨site, function, arguments, keywords, rfl, hname⟩ | ⟨c, hc, hg⟩)
    · exact mem_callees_call hname
    · exact callees_of_mem_children hc hg

theorem Expr.not_mem_callees_call {g : String} {site : Site} {function : Expr}
    {arguments : List Expr} {keywords : List (String × Expr)} (h : function.callees = []) :
    g ∉ (call site function arguments keywords).callees ↔ function.asName ≠ some g ∧
      (∀ c ∈ arguments, g ∉ c.callees) ∧ ∀ k ∈ keywords, g ∉ k.2.callees := by
  have hown : (∃ site' function' arguments' keywords',
      call site function arguments keywords = call site' function' arguments' keywords' ∧
        function'.asName = some g) ↔ function.asName = some g := by simp
  have hbelow : (∀ c ∈ (call site function arguments keywords).children, g ∉ c.callees) ↔
      (∀ c ∈ arguments, g ∉ c.callees) ∧ ∀ k ∈ keywords, g ∉ k.2.callees := by
    rw [children, List.forall_mem_append, List.forall_mem_cons, List.forall_mem_map, h]
    simp
  rw [mem_callees_iff, hown, not_or, ← hbelow]
  simp

theorem Expr.callees_of_asName {e : Expr} {x : String} (h : e.asName = some x) :
    e.callees = [] := by
  obtain ⟨site, rfl⟩ := eq_name_of_asName h
  rfl

namespace Stmt

/-- A statement calls what its own expressions call, and what the statements of its blocks do. -/
theorem callees_eq (s : Stmt) : s.callees =
    s.expressions.flatMap Expr.callees ++ s.blocks.flatMap fun b => b.flatMap callees := by
  have hblock : ∀ b : List Stmt,
      ((nestedBlock b).flatMap fun t => t.expressions.flatMap Expr.callees) =
        b.flatMap callees := by
    intro b
    rw [nestedBlock_eq, List.flatMap_assoc]
    rfl
  rw [callees, nested_eq, List.flatMap_cons, List.flatMap_assoc]
  simp only [hblock]

variable (site : Site) (c target iter : Expr) (body orelse : List Stmt)

theorem callees_expr : (expr site c).callees = c.callees := by
  simp [callees_eq (expr site c), expressions, blocks]

theorem callees_ifElse : (ifElse site c body orelse).callees =
    c.callees ++ (body.flatMap callees ++ orelse.flatMap callees) := by
  simp [callees_eq (ifElse site c body orelse), expressions, blocks]

theorem callees_whileLoop :
    (whileLoop site c body []).callees = c.callees ++ body.flatMap callees := by
  simp [callees_eq (whileLoop site c body []), expressions, blocks]

theorem callees_forLoop : (forLoop site target iter body []).callees =
    target.callees ++ iter.callees ++ body.flatMap callees := by
  simp [callees_eq (forLoop site target iter body []), expressions, blocks]

theorem callees_ret (value : Option Expr) :
    (ret site value).callees = value.toList.flatMap Expr.callees := by
  simp [callees_eq (ret site value), expressions, blocks]

end Stmt

end Source

namespace Lowering

open Source (Stmt)
open Target.Stmt (calleesBlock calleesBranches calleesElse)

variable {policy : Policy} {env : Environment} {g : String}

/-- A function of the program can be called by its name: it is known, and the name is not one of the
standard library. -/
structure Callable (globals : Globals) (g : String) : Prop where
  known : (globals.function? g).isSome = true
  defaults : globals.LiteralDefaults
  own : ¬ Target.IsLibrary g

theorem Callable.congr {globals globals' : Globals} (h : Callable globals g)
    (hf : globals'.functions = globals.functions) : Callable globals' g where
  known := by rw [Globals.function?_congr hf, h.known]
  defaults := h.defaults.congr hf
  own := h.own

/-! ### Expressions -/

/-- The name of a function that is known denotes it where it is called. -/
theorem callee_of_asName {function : Source.Expr} (h : function.asName = some g)
    (hknown : (env.function? g).isSome = true) : Typing.callee env function = .ok (.user g) := by
  obtain ⟨site, rfl⟩ := Source.Expr.eq_name_of_asName h
  exact if_pos hknown

theorem Callable.asName_ne (hg : Callable env.globals g) {function : Source.Expr}
    {callee : Typing.Callee} (h : Typing.callee env function = .ok callee)
    (hcallee : ∀ name, callee ≠ .user name) : function.asName ≠ some g := by
  intro hname
  rw [callee_of_asName hname hg.known] at h
  exact hcallee g (Except.ok.inj h).symm

theorem Callable.plain (hg : Callable env.globals g) :
    Plain fun n => n.callee? ≠ some g where
  literal e he := by cases e <;> simp [Target.Expr.isLiteral, Target.Expr.callee?] at he ⊢
  binary := by simp [Target.Expr.callee?]
  unary := by simp [Target.Expr.callee?]
  castTo := by simp [Target.Expr.castTo, Target.Expr.callee?]
  library name hname es t h := hg.own (Option.some.inj h ▸ isLibrary_of_mem hname)

theorem callees_of_callee {function : Source.Expr} {callee : Typing.Callee}
    (h : Typing.callee env function = .ok callee) : function.callees = [] := by
  cases function with
  | name => rfl
  | attr site object x =>
    simp only [Typing.callee] at h
    split at h
    · rename_i hmath
      obtain ⟨site', rfl⟩ := Source.Expr.eq_name_of_asName hmath.1
      rfl
    · cases h
  | _ => simp [Typing.callee] at h

/-- **A lowered expression calls the functions of the program that the expression calls.** -/
theorem mem_callees_lower (hg : Callable env.globals g) {ctx : Typing.Context} {e : Source.Expr}
    {t : Target.Expr} (h : lower env policy ctx e = .ok t) : g ∈ t.callees ↔ g ∈ e.callees := by
  -- No node calls `g` exactly if no node of the expression does, which is a property of all nodes.
  rw [← not_iff_not, ← Target.Expr.each_callee?_ne]
  induction e using Source.Expr.induction generalizing ctx t with
  | step e ih =>
    -- The hypothesis for lists of operands.
    have ihs : ∀ ctx es (ts : List Target.Expr), (∀ c ∈ es, c ∈ e.children) →
        lowerList env policy ctx es = ts.map .ok →
        ((∀ t ∈ ts, t.Each fun n => n.callee? ≠ some g) ↔ ∀ c ∈ es, g ∉ c.callees) := by
      intro ctx es ts hes hts
      constructor
      · intro hall c hc
        obtain ⟨t, ht, hct⟩ := exists_lower_of_mem hts hc
        exact (ih c (hes c hc) hct).1 (hall t ht)
      · intro hall t ht
        obtain ⟨c, hc, hct⟩ := exists_of_mem_lowerList hts ht
        exact (ih c (hes c hc) hct).2 (hall c hc)
    rw [Source.Expr.mem_callees_iff]
    cases becomes_of_lower h with
    | int | float | bool | str =>
      exact iff_of_true (hg.plain.each_literal rfl) (by simp [Source.Expr.children])
    | name =>
      exact iff_of_true (Target.Expr.each_var.2 (by simp [Target.Expr.callee?]))
        (by simp [Source.Expr.children])
    | binary hl hr ht =>
      rw [each_binaryExpr hg.plain ht, ih _ (by simp [Source.Expr.children]) hl,
        ih _ (by simp [Source.Expr.children]) hr]
      simp [Source.Expr.children]
    | boolOp hts ht =>
      simp only [boolOpExpr, Checked.bind_eq_ok] at ht
      obtain ⟨-, -, ht⟩ := ht
      rw [each_joined hg.plain ht, ihs ctx _ _ (fun _ he => he) hts]
      simp [Source.Expr.children]
    | unary he hu =>
      rw [Target.Expr.each_unary, ih _ (by simp [Source.Expr.children]) he]
      simp [Source.Expr.children, Target.Expr.callee?]
    | compare hts ht =>
      rw [each_comparisonExpr hg.plain (length_of_lowerList hts) ht,
        ihs .value _ _ (fun _ he => he) hts]
      simp [Source.Expr.children]
    | @call _ _ _ keywords _ _ _ hts hks ht =>
      have hargs := ihs .value _ _ (by simp +contextual [Source.Expr.children]) hts
      have hkeywords := lowerList_keywords hks
      have hkeys := ihs .value _ _ (by simp +contextual [Source.Expr.children]) hkeywords
      rw [List.forall_mem_map, List.forall_mem_map] at hkeys
      rw [← Source.Expr.mem_callees_iff]
      rcases each_callExpr hg.plain hg.defaults ht with
        ⟨name, s, es, hcallee, hs, -, hiff⟩ | ⟨builtin, hcallee, hbuiltin, rfl, hiff⟩
      · rw [Source.Expr.not_mem_callees_call (callees_of_callee hcallee), hiff, hargs, hkeys,
          Typing.asName_of_callee hcallee, Globals.name_of_function? hs]
        rfl
      · -- A built-in function takes no keywords, and its name is not that of a known function.
        obtain rfl : keywords = [] := by simpa [lowerList_eq_map] using hkeywords
        rw [Source.Expr.not_mem_callees_call (callees_of_callee hcallee), hiff, hargs]
        simp [hg.asName_ne hcallee hbuiltin]

theorem mem_calleesList_lower (hg : Callable env.globals g) {ctx : Typing.Context}
    {es : List Source.Expr} {ts : List Target.Expr}
    (h : lowerList env policy ctx es = ts.map .ok) :
    g ∈ Target.Expr.calleesList ts ↔ ∃ e ∈ es, g ∈ e.callees := by
  rw [Target.Expr.mem_calleesList]
  constructor
  · rintro ⟨t, ht, hcall⟩
    obtain ⟨e, he, heq⟩ := exists_of_mem_lowerList h ht
    exact ⟨e, he, (mem_callees_lower hg heq).1 hcall⟩
  · rintro ⟨e, he, hcall⟩
    obtain ⟨t, ht, heq⟩ := exists_lower_of_mem h he
    exact ⟨t, ht, (mem_callees_lower hg heq).2 hcall⟩

/-! ### Heads of loops -/

theorem callees_of_stepLiteral? {e : Source.Expr} {n : Int64}
    (h : Typing.stepLiteral? e = some n) : e.callees = [] := by
  unfold Typing.stepLiteral? at h
  split at h
  · rfl
  · rfl
  · cases h

/-- A `range` calls what its bounds call. -/
theorem mem_callees_range? (hg : Callable env.globals g) {iter : Source.Expr} {r : Typing.Range}
    (h : Typing.range? env iter = some r) :
    g ∈ iter.callees ↔ g ∈ r.start.toList.flatMap Source.Expr.callees ++ r.stop.callees := by
  unfold Typing.range? at h
  split at h
  · rename_i site function arguments keywords
    split at h
    · rename_i hrange
      obtain ⟨hname, hkeywords, -, hfree⟩ := hrange
      obtain rfl : keywords = [] := by simpa using hkeywords
      have hne : function.asName ≠ some g := by
        rw [hname]
        rintro ⟨⟩
        exact Option.not_isSome_iff_eq_none.2 (Option.isNone_iff_eq_none.1 hfree) hg.known
      have hcall : g ∈ (Source.Expr.call site function arguments []).callees ↔
          g ∈ arguments.flatMap Source.Expr.callees := by
        rw [← not_iff_not, Source.Expr.not_mem_callees_call (Source.Expr.callees_of_asName hname)]
        simp [hne]
      rw [hcall]
      unfold Typing.rangeOfArguments? at h
      split at h
      · obtain rfl := Option.some.inj h
        simp
      · obtain rfl := Option.some.inj h
        simp
      · simp only [Option.bind_eq_bind, Option.bind_eq_some_iff, Option.ite_none_left_eq_some,
          Option.some.injEq] at h
        obtain ⟨n, hn, -, rfl⟩ := h
        simp [callees_of_stepLiteral? hn]
      · cases h
    · cases h
  · cases h

theorem Counts.mem_callees {target iter : Source.Expr} {body : List Stmt} {r : Typing.Range}
    {head : LoopHead} (h : Counts policy env target iter body r head)
    (hg : Callable env.globals g) :
    g ∈ head.start.callees ++ head.stop.callees ↔ g ∈ target.callees ++ iter.callees := by
  have hstart : g ∈ head.start.callees ↔ g ∈ r.start.toList.flatMap Source.Expr.callees := by
    have hvalue := h.start
    cases hs : r.start with
    | none =>
      rw [hs] at hvalue
      rw [← Except.ok.inj hvalue]
      exact iff_of_false List.not_mem_nil List.not_mem_nil
    | some e =>
      rw [hs] at hvalue
      simp [mem_callees_lower hg hvalue]
  rw [List.mem_append, List.mem_append, hstart, mem_callees_lower hg h.stop,
    Source.Expr.callees_of_asName h.target, mem_callees_range? hg h.range, List.mem_append]
  simp

/-! ### Statements -/

/-- `g` is in `as` only if it is in `bs`, and also then if there are no records of anything left
out. -/
structure SameCalls (g : String) (records : List SkipRecord) (as bs : List String) : Prop where
  sound : g ∈ as → g ∈ bs
  complete : records = [] → g ∈ bs → g ∈ as

namespace SameCalls

variable {records records' : List SkipRecord} {as as' bs bs' : List String}

theorem of_iff (h : g ∈ as ↔ g ∈ bs) : SameCalls g records as bs := ⟨h.1, fun _ => h.2⟩

theorem append (h : SameCalls g records as bs) (h' : SameCalls g records' as' bs')
    (hrecords : records <+: records') : SameCalls g records' (as ++ as') (bs ++ bs') := by
  constructor
  · rw [List.mem_append, List.mem_append]
    exact Or.imp h.sound h'.sound
  · rintro rfl
    rw [List.mem_append, List.mem_append]
    exact Or.imp (h.complete (List.prefix_nil.1 hrecords)) (h'.complete rfl)

theorem cons_of_iff (h : g ∈ as ↔ g ∈ bs) (h' : SameCalls g records as' bs') :
    SameCalls g records (as ++ as') (bs ++ bs') := (of_iff h).append h' List.prefix_rfl

end SameCalls

theorem mem_callees_of_binding? {s : Stmt} {x : String} {e : Source.Expr}
    (h : binding? s = some (x, e)) : g ∈ s.callees ↔ g ∈ e.callees := by
  rcases exists_of_binding? h with ⟨site, target, hx, rfl⟩ | ⟨site, target, op, value, hx, rfl, rfl⟩
  · rw [Stmt.callees_eq]
    simp [Stmt.expressions, Stmt.blocks, Source.Expr.callees_of_asName hx]
  · rw [Stmt.callees_eq, Source.Expr.mem_callees_iff]
    simp [Stmt.expressions, Stmt.blocks, Source.Expr.callees_of_asName hx, desugared,
      Source.Expr.children]

theorem callees_of_isDoc {s : Stmt} (h : s.isDoc = true) : s.callees = [] := by
  cases s <;> simp [Stmt.isDoc] at h <;> rfl

theorem callees_of_isImport {s : Stmt} (h : isImport s = true) : s.callees = [] := by
  cases s <;> simp [isImport] at h <;> rfl

theorem mem_callees_returnValue (hg : Callable env.globals g) {e : Option Source.Expr}
    {t : Option Target.Expr} (h : returnValue policy env e = .ok t) :
    g ∈ (Target.Stmt.ret t).callees ↔ g ∈ e.toList.flatMap Source.Expr.callees := by
  unfold returnValue at h
  split at h
  · obtain rfl := Except.ok.inj h
    exact Iff.rfl
  · obtain rfl := Except.ok.inj h
    exact Iff.rfl
  · rename_i e _ _
    simp only [Checked.bind_eq_ok, Checked.pure_eq_ok] at h
    obtain ⟨v, hv, rfl⟩ := h
    rw [Option.toList_some, List.flatMap_singleton]
    exact mem_callees_lower hg hv

/-- A branch of a conditional, with the branches behind it. -/
theorem SameCalls.branch (hg : Callable env.globals g) {c : Source.Expr} {t : Target.Expr}
    (hc : lower env policy .condition c = .ok t) {b : Block}
    {branches : List (Target.Expr × Block)} {last : Option Block} {body orelse : List Stmt}
    {records records' : List SkipRecord} (hrecords : records <+: records')
    (hbody : SameCalls g records (calleesBlock b) (body.flatMap Stmt.callees))
    (horelse : SameCalls g records' (calleesBranches branches ++ calleesElse last)
      (orelse.flatMap Stmt.callees)) (site : Source.Site) :
    SameCalls g records' (calleesBranches ((t, b) :: branches) ++ calleesElse last)
      (Stmt.ifElse site c body orelse).callees := by
  rw [Stmt.callees_ifElse, Target.Stmt.calleesBranches_cons, List.append_assoc, List.append_assoc]
  exact .cons_of_iff (mem_callees_lower hg hc) (hbody.append horelse hrecords)

mutual

/-- **An emitted statement calls the functions of the program that the statement calls**, if nothing
in it was left out, and no others in any case. -/
theorem Emits.sameCalls {st st' : State} {s : Stmt} {b : Block} :
    Emits policy st s b st' → Callable st.env.globals g →
      SameCalls g st'.records (calleesBlock b) s.callees
  | .skipped r _ hne _, _ => ⟨by simp [calleesBlock, SkipRecord.comment, Target.Stmt.exprNodes],
      fun hnil => absurd hnil hne⟩
  | .doc hs, _ => .of_iff (by simp [callees_of_isDoc hs, calleesBlock, Target.Stmt.exprNodes])
  | .print hcallee hvalues _, hg => .of_iff (by
      rw [lowerArguments, Checked.sequence_eq_ok] at hvalues
      rw [Target.Stmt.calleesBlock_singleton, Target.Stmt.callees_print,
        mem_calleesList_lower hg hvalues, Stmt.callees_expr, ← not_iff_not,
        Source.Expr.not_mem_callees_call (callees_of_callee hcallee)]
      simp [hg.asName_ne hcallee])
  | .call _ hvalue, hg => .of_iff (by
      rw [Target.Stmt.calleesBlock_singleton, Stmt.callees_expr]
      exact mem_callees_lower hg hvalue)
  | .declare hs hvalue _ _ _, hg => .of_iff (by
      rw [Target.Stmt.calleesBlock_singleton, mem_callees_of_binding? hs]
      exact mem_callees_lower hg hvalue)
  | .store hs hvalue _ _, hg => .of_iff (by
      rw [Target.Stmt.calleesBlock_singleton, mem_callees_of_binding? hs]
      exact mem_callees_lower hg hvalue)
  | .ifElse hc _ hbody horelse, hg => by
    rw [Target.Stmt.calleesBlock_singleton, Target.Stmt.callees_ifElse]
    exact .branch hg hc horelse.sameScope.records (hbody.sameCalls hg)
      (horelse.sameCalls (hg.congr hbody.keeps.pop.functions)) _
  | .whileLoop hc _ hbody, hg => by
    rw [Target.Stmt.calleesBlock_singleton, Target.Stmt.callees_whileLoop, Stmt.callees_whileLoop]
    exact .cons_of_iff (mem_callees_lower hg hc) (hbody.sameCalls hg)
  | .forLoop hhead hbody, hg => by
    rw [Target.Stmt.calleesBlock_singleton, Target.Stmt.callees_forLoop, Stmt.callees_forLoop]
    exact .cons_of_iff (hhead.mem_callees hg) (hbody.sameCalls hg)
  | .ret hvalue _, hg => .of_iff (by
      rw [Target.Stmt.calleesBlock_singleton, Stmt.callees_ret]
      exact mem_callees_returnValue hg hvalue)
  | .brk, _ | .cont, _ | .pass, _ => .of_iff Iff.rfl
  | .imports hs _, _ => .of_iff (by rw [callees_of_isImport hs]; rfl)

theorem EmitsBlock.sameCalls {st st' : State} {ss : List Stmt} {b : Block} :
    EmitsBlock policy st ss b st' → Callable st.env.globals g →
      SameCalls g st'.records (calleesBlock b) (ss.flatMap Stmt.callees)
  | .nil, _ => .of_iff Iff.rfl
  | .cons hfirst hrest, hg => by
    rw [Target.Stmt.calleesBlock_append, List.flatMap_cons]
    exact (hfirst.sameCalls hg).append (hrest.sameCalls (hg.congr hfirst.keeps.functions))
      hrest.keeps.records

theorem EmitsElse.sameCalls {st st' : State} {ss : List Stmt}
    {branches : List (Target.Expr × Block)} {last : Option Block} :
    EmitsElse policy st ss branches last st' → Callable st.env.globals g →
      SameCalls g st'.records (calleesBranches branches ++ calleesElse last)
        (ss.flatMap Stmt.callees)
  | .none, _ => .of_iff Iff.rfl
  | .elseIf hc _ hbody horelse, hg => by
    rw [List.flatMap_singleton]
    exact .branch hg hc horelse.sameScope.records (hbody.sameCalls hg)
      (horelse.sameCalls (hg.congr hbody.keeps.pop.functions)) _
  | .block hbody, hg => hbody.sameCalls hg

end

end Lowering

end StaticScript
