import StaticScript.Proofs.Lowering.Program
import StaticScript.Proofs.Lowering.Alike
import StaticScript.Source.Compose

/-!
# Types of calls

Every call of a function of the program carries the return type of its signature, and the function
itself the type of what its body returns.  The return types that are not annotated are found by
lowering the bodies again and again, but only for so many rounds, so the two types need not be the
same: they are, for every function that is called, exactly if one more look at its body would leave
its signature as it is (`callTypes_agree_iff`).  An annotated return type always stays.

`oscillating` is a script whose rounds never settle, and its call does carry another type than the
function that it calls (`oscillating_disagrees`).
-/

namespace StaticScript

/-! ### Calls of a program -/

namespace Target

/-- A function of the standard library. -/
def IsLibrary (function : String) : Prop := ∃ name, function = "std::" ++ name

/-- The nodes of all expressions in the bodies of functions and in `main`. -/
def Program.exprNodes (p : Program) : List Expr :=
  p.functions.flatMap (fun f => Stmt.exprNodesBlock f.body) ++ Stmt.exprNodesBlock p.mainBody

/-- The types that the calls of a function carry. -/
def Program.callTypes (p : Program) (name : String) : List StaticType :=
  p.exprNodes.filterMap fun
    | .call function _ t => if function = name then some t else none
    | _ => none

theorem Program.mem_callTypes {p : Program} {name : String} {t : StaticType} :
    t ∈ p.callTypes name ↔ ∃ es, .call name es t ∈ p.exprNodes := by
  simp only [callTypes, List.mem_filterMap]
  constructor
  · rintro ⟨e, he, ht⟩
    cases e with
    | call function es u =>
      simp only [Option.ite_none_right_eq_some, Option.some.injEq] at ht
      obtain ⟨rfl, rfl⟩ := ht
      exact ⟨es, he⟩
    | _ => cases ht
  · rintro ⟨es, he⟩
    exact ⟨_, he, by simp⟩

theorem Stmt.exprNodesBlock_append (b bs : List Stmt) :
    exprNodesBlock (b ++ bs) = exprNodesBlock b ++ exprNodesBlock bs := by
  simp only [exprNodesBlock_eq, List.flatMap_append]

@[simp] theorem Stmt.exprNodesBlock_singleton (s : Stmt) : exprNodesBlock [s] = s.exprNodes := by
  simp [exprNodesBlock]

end Target

namespace Lowering

open Source (Stmt)
open Target (Expr)
open Target.Stmt (exprNodesBlock exprNodesBranches exprNodesElse)

variable {policy : Policy} {P : Expr → Prop} {names : String → Prop}

/-! ### Names that are mentioned -/

/-- The statements themselves mention no names but `names`. -/
def MentionsOnly (names : String → Prop) (ss : List Stmt) : Prop :=
  ∀ s ∈ ss, ∀ e ∈ s.expressions, ∀ x, e.mentions x = true → names x

namespace MentionsOnly

theorem mono {ss ss' : List Stmt} (h : MentionsOnly names ss) (hsub : ss' ⊆ ss) :
    MentionsOnly names ss' := fun s hs => h s (hsub hs)

theorem self {s : Stmt} (h : MentionsOnly names s.nested) {e : Source.Expr}
    (he : e ∈ s.expressions) : ∀ x, e.mentions x = true → names x :=
  h s s.mem_nested_self e he

/-- What is stored is put together from the expressions of the statement. -/
theorem binding {s : Stmt} (h : MentionsOnly names s.nested) {y : String} {e : Source.Expr}
    (hs : binding? s = some (y, e)) : ∀ x, e.mentions x = true → names x := by
  intro x hx
  rcases exists_of_binding? hs with ⟨site, target, -, rfl⟩ | ⟨site, target, op, value, -, rfl, rfl⟩
  · exact h.self (by simp [Stmt.expressions]) x hx
  · obtain ⟨c, hc, hx⟩ := (Source.Expr.mentions_iff.1 hx).resolve_left (by
      simp [desugared, Source.Expr.asName])
    exact h.self hc x hx

end MentionsOnly

/-! ### Nodes of emitted statements -/

/-- What holds of all nodes that lowering makes where the functions of `globals` are known and no
names are mentioned but `names`. -/
structure Holds (policy : Policy) (P : Expr → Prop) (names : String → Prop) (globals : Globals) :
    Prop extends Plain P where
  var : ∀ x t, names x → P (.var x t)
  call : ∀ name s, globals.function? name = some s → ∀ es, Passes policy s.params es →
    P (.call s.name es s.returns)
  defaults : globals.LiteralDefaults

theorem Holds.congr {g g' : Globals} (h : Holds policy P names g)
    (hg : g'.functions = g.functions) : Holds policy P names g' where
  toPlain := h.toPlain
  var := h.var
  call name s hs := h.call name s (by rwa [Globals.function?_congr hg] at hs)
  defaults := h.defaults.congr hg

theorem Holds.each {env : Environment} (hP : Holds policy P names env.globals)
    {ctx : Typing.Context} {e : Source.Expr} {t : Expr} (h : lower env policy ctx e = .ok t)
    (he : ∀ x, e.mentions x = true → names x) : t.Each P :=
  each_lower hP.toPlain hP.defaults hP.call h fun x u hx _ => hP.var x u (he x hx)

theorem Holds.each_start {env : Environment} (hP : Holds policy P names env.globals)
    {e : Option Source.Expr} {t : Expr}
    (h : e.elim (.ok (.ofInt 0)) (lower env policy .value) = .ok t)
    (he : ∀ e', e = some e' → ∀ x, e'.mentions x = true → names x) : t.Each P := by
  cases e with
  | none =>
    obtain rfl := Except.ok.inj h
    exact hP.each_literal rfl
  | some e => exact hP.each h (he e rfl)

mutual

theorem Emits.each {st st' : State} {s : Stmt} {b : Block} :
    Emits policy st s b st' → Holds policy P names st.env.globals →
      MentionsOnly names s.nested → ∀ n ∈ exprNodesBlock b, P n
  | .skipped r _ _ _, _, _ => by simp [SkipRecord.comment, Target.Stmt.exprNodes]
  | .doc _, _, _ => by simp [Target.Stmt.exprNodes]
  | .print _ hvalues _, hP, hs => by
    rw [Target.Stmt.exprNodesBlock_singleton, Target.Stmt.exprNodes, Expr.nodesList_eq]
    intro n hn
    obtain ⟨t, ht, hn⟩ := List.mem_flatMap.1 hn
    obtain ⟨e, hmem, he⟩ := exists_of_mem_lowerArguments hvalues ht
    refine hP.each he (fun x hx => hs.self List.mem_cons_self x ?_) n hn
    exact Source.Expr.mentions_iff.2 (.inr ⟨e, by simp [Source.Expr.children, hmem], hx⟩)
  | .call _ hvalue, hP, hs => by
    rw [Target.Stmt.exprNodesBlock_singleton]
    exact hP.each hvalue (hs.self List.mem_cons_self)
  | .declare hs hvalue _ _ _, hP, hnames => by
    rw [Target.Stmt.exprNodesBlock_singleton]
    exact hP.each hvalue (hnames.binding hs)
  | .store hs hvalue _ _, hP, hnames => by
    rw [Target.Stmt.exprNodesBlock_singleton]
    exact hP.each hvalue (hnames.binding hs)
  | .ifElse hc _ hbody horelse, hP, hs => by
    obtain ⟨hbranches, hlast⟩ := horelse.each (hP.congr hbody.keeps.pop.functions)
      (hs.mono (by simp [Stmt.nested]))
    simp only [Target.Stmt.exprNodesBlock_singleton, Target.Stmt.exprNodes, exprNodesBranches,
      List.forall_mem_append]
    exact ⟨⟨⟨hP.each hc (hs.self List.mem_cons_self),
      hbody.each hP (hs.mono (by simp [Stmt.nested]))⟩, hbranches⟩, hlast⟩
  | .whileLoop hc _ hbody, hP, hs => by
    simp only [Target.Stmt.exprNodesBlock_singleton, Target.Stmt.exprNodes,
      List.forall_mem_append]
    exact ⟨hP.each hc (hs.self List.mem_cons_self),
      hbody.each hP (hs.mono (by simp [Stmt.nested]))⟩
  | .forLoop (r := r) hhead hbody, hP, hs => by
    -- The bounds are arguments of the `range`, so the loop mentions what they mention.
    have hbounds : ∀ e ∈ r.start.toList ++ [r.stop], ∀ x, e.mentions x = true → names x := by
      intro e he x hx
      have hmem := Typing.mem_children_of_range? hhead.range e he
      refine hs.self (List.mem_cons_of_mem _ List.mem_cons_self) x ?_
      exact Source.Expr.mentions_iff.2 (.inr ⟨e, hmem, hx⟩)
    simp only [Target.Stmt.exprNodesBlock_singleton, Target.Stmt.exprNodes,
      List.forall_mem_append]
    exact ⟨⟨hP.each_start hhead.start fun e he => hbounds e (by simp [he]),
      hP.each hhead.stop (hbounds r.stop (by simp))⟩,
      hbody.each hP (hs.mono (by simp [Stmt.nested]))⟩
  | .ret (t := t) hvalue _, hP, hs => by
    rw [Target.Stmt.exprNodesBlock_singleton]
    cases t with
    | none => simp [Target.Stmt.exprNodes]
    | some t =>
      obtain ⟨e, rfl, he⟩ := lower_of_returnValue hvalue
      exact hP.each he (hs.self List.mem_cons_self)
  | .brk, _, _ | .cont, _, _ => by simp [Target.Stmt.exprNodes]
  | .pass, _, _ | .imports _ _, _, _ => by simp [exprNodesBlock]

theorem EmitsBlock.each {st st' : State} {ss : List Stmt} {b : Block} :
    EmitsBlock policy st ss b st' → Holds policy P names st.env.globals →
      MentionsOnly names (Stmt.nestedBlock ss) → ∀ n ∈ exprNodesBlock b, P n
  | .nil, _, _ => by simp [exprNodesBlock]
  | .cons hfirst hrest, hP, hs => by
    rw [Target.Stmt.exprNodesBlock_append, List.forall_mem_append]
    exact ⟨hfirst.each hP (hs.mono (by simp [Stmt.nestedBlock])),
      hrest.each (hP.congr hfirst.keeps.functions) (hs.mono (by simp [Stmt.nestedBlock]))⟩

theorem EmitsElse.each {st st' : State} {ss : List Stmt} {branches : List (Expr × Block)}
    {last : Option Block} :
    EmitsElse policy st ss branches last st' → Holds policy P names st.env.globals →
      MentionsOnly names (Stmt.nestedBlock ss) →
      (∀ n ∈ exprNodesBranches branches, P n) ∧ ∀ n ∈ exprNodesElse last, P n
  | .none, _, _ => by simp [exprNodesBranches, exprNodesElse]
  | .elseIf hc _ hbody horelse, hP, hs => by
    have hs := hs.mono (Stmt.nested_subset_of_mem List.mem_cons_self)
    obtain ⟨hbranches, hlast⟩ := horelse.each (hP.congr hbody.keeps.pop.functions)
      (hs.mono (by simp [Stmt.nested]))
    simp only [exprNodesBranches, List.forall_mem_append]
    exact ⟨⟨⟨hP.each hc (hs.self List.mem_cons_self),
      hbody.each hP (hs.mono (by simp [Stmt.nested]))⟩, hbranches⟩, hlast⟩
  | .block hbody, hP, hs => ⟨by simp [exprNodesBranches], hbody.each hP hs⟩

end

/-! ### Nodes of emitted programs -/

/-- The functions of the program stand for the definitions of the script in order. -/
theorem EmitsItems.functions_eq {globals : Globals} {st st' : State} {ss : List Stmt}
    {items : List Target.Item} (h : EmitsItems policy globals st ss items st')
    (is : List Target.Include) :
    Target.Program.functions ⟨is, items⟩ = ss.filterMap fun d =>
      (declared? globals d).map fun f => (emitFunction policy globals [] f.1 f.2).1 := by
  induction h with
  | nil => rfl
  | function hd hrest ih =>
    rw [Target.Program.functions_function, ih, emitFunction_records,
      List.filterMap_cons_some (by rw [hd, Option.map_some])]
  | stmt hd hfirst hrest ih =>
    rw [Target.Program.functions_stmts, ih, List.filterMap_cons_none (by rw [hd, Option.map_none])]

theorem EmitsItems.mem_functions {globals : Globals} {st st' : State} {ss : List Stmt}
    {items : List Target.Item} (h : EmitsItems policy globals st ss items st')
    {is : List Target.Include} {f : Target.Function} :
    f ∈ Target.Program.functions ⟨is, items⟩ ↔ ∃ d ∈ ss, ∃ s body,
      declared? globals d = some (s, body) ∧ f = (emitFunction policy globals [] s body).1 := by
  simp [h.functions_eq, eq_comm]

theorem EmitsItems.each {globals : Globals} {st st' : State} {ss : List Stmt}
    {items : List Target.Item} (h : EmitsItems policy globals st ss items st')
    (hP : Holds policy P names st.env.globals) (hs : MentionsOnly names (Stmt.nestedBlock ss))
    (is : List Target.Include) :
    ∀ n ∈ exprNodesBlock (Target.Program.mainBody ⟨is, items⟩), P n := by
  induction h with
  | nil => simp [exprNodesBlock]
  | function hd hrest ih => exact ih hP (hs.mono (by simp [Stmt.nestedBlock]))
  | stmt hd hfirst hrest ih =>
    rw [Target.Program.mainBody_stmts, Target.Stmt.exprNodesBlock_append, List.forall_mem_append]
    exact ⟨hfirst.each hP (hs.mono (by simp [Stmt.nestedBlock])),
      ih (hP.congr hfirst.keeps.functions) (hs.mono (by simp [Stmt.nestedBlock]))⟩

/-- What is nested in the body of a function is nested in the script. -/
theorem nestedBlock_subset_of_declared? {globals : Globals} {ss body : List Stmt} {d : Stmt}
    {s : Signature} (hmem : d ∈ ss) (hd : declared? globals d = some (s, body)) :
    Stmt.nestedBlock body ⊆ Stmt.nestedBlock ss := by
  obtain ⟨-, site, name, params, returns, decorators, rfl⟩ := declared?_eq_some hd
  exact fun t ht => Stmt.nested_subset_of_mem hmem (List.mem_cons_of_mem _ ht)

theorem each_emit {m : Source.Module} (hP : Holds policy P names (programGlobals policy m.body))
    (hm : MentionsOnly names (Stmt.nestedBlock m.body)) :
    ∀ n ∈ (emit policy m).program.exprNodes, P n := by
  obtain ⟨stop, hitems, -⟩ := emitsItems_emit policy m
  rw [Target.Program.exprNodes, List.forall_mem_append]
  refine ⟨fun n hn => ?_, hitems.each (hP.congr rfl) hm _⟩
  obtain ⟨f, hf, hn⟩ := List.mem_flatMap.1 hn
  obtain ⟨d, hmem, s, body, hd, rfl⟩ := hitems.mem_functions.1 hf
  obtain ⟨_, hbody, -⟩ := emits_emitFunction policy (programGlobals policy m.body) [] s body
  refine hbody.each ?_ (hm.mono (nestedBlock_subset_of_declared? hmem hd)) n hn
  rw [functionStart, globals_functionEnv]
  exact hP

theorem isLibrary_of_mem {name : String} (h : name ∈ libraryNames) : Target.IsLibrary name := by
  rw [libraryNames, List.mem_append] at h
  rcases h with h | h
  · simp only [List.mem_cons, List.not_mem_nil, or_false] at h
    rcases h with rfl | rfl | rfl | rfl | rfl
    · exact ⟨"string", rfl⟩
    · exact ⟨"fmod", rfl⟩
    · exact ⟨"pow", rfl⟩
    · exact ⟨"to_string", rfl⟩
    · exact ⟨"abs", rfl⟩
  · obtain ⟨x, -, rfl⟩ := List.mem_map.1 h
    exact ⟨x, rfl⟩

/-- A call passes what its signature takes and carries its return type, unless it calls the
standard library. -/
theorem call_of_mem_exprNodes {m : Source.Module} {name : String} {es : List Expr} {t : StaticType}
    (h : .call name es t ∈ (emit policy m).program.exprNodes) (hname : ¬ Target.IsLibrary name) :
    ∃ s, (programGlobals policy m.body).function? name = some s ∧ Passes policy s.params es ∧
      t = s.returns := by
  -- Nodes that are no calls have the property for free.
  have heach : ∀ n ∈ (emit policy m).program.exprNodes, ∀ f es t, n = .call f es t →
      Target.IsLibrary f ∨ ∃ s, (programGlobals policy m.body).function? f = some s ∧
        Passes policy s.params es ∧ t = s.returns := by
    refine each_emit (?_ : Holds policy _ (fun _ => True) _) fun _ _ _ _ _ _ => trivial
    refine ⟨⟨?_, ?_, ?_, ?_, ?_⟩, ?_, ?_, literalDefaults_programGlobals m.body⟩
    · rintro e he f es t rfl
      cases he
    · rintro op l r t f es u ⟨⟩
    · rintro op e t f es u ⟨⟩
    · rintro e t f es u ⟨⟩
    · rintro name hname es t f es' u ⟨⟩
      exact .inl (isLibrary_of_mem hname)
    · rintro x t - f es u ⟨⟩
    · rintro name s hs es hpasses f es' u ⟨⟩
      exact .inr ⟨s, by rw [Globals.name_of_function? hs, hs], hpasses, rfl⟩
  exact (heach _ h name es t rfl).resolve_left hname

theorem type_of_mem_callTypes {m : Source.Module} {name : String} {t : StaticType}
    (ht : t ∈ (emit policy m).program.callTypes name) (hname : ¬ Target.IsLibrary name) :
    ∃ s, (programGlobals policy m.body).function? name = some s ∧ t = s.returns := by
  obtain ⟨es, he⟩ := Target.Program.mem_callTypes.1 ht
  obtain ⟨s, hs, -, ht⟩ := call_of_mem_exprNodes he hname
  exact ⟨s, hs, ht⟩

/-! ### Return types -/

/-- A signature stays as it is if it has the type of what the body returns. -/
theorem inferOne_unchanged_iff {globals : Globals} {d : Stmt} {s : Signature} {body : List Stmt}
    (h : declared? globals d = some (s, body)) :
    (inferOne policy (globals, false) d).2 = false ↔
      s.returns = (emitFunction policy globals [] s body).1.returns := by
  simp only [inferOne, h]
  split <;> simp_all

/-- An annotated return type is the one of the function. -/
theorem returns_emitFunction_of_annotated {globals : Globals} {s : Signature} {body : List Stmt}
    (h : s.annotated = true) :
    (emitFunction policy globals [] s body).1.returns = s.returns := by
  obtain ⟨stop, hbody, hreturns, -⟩ := emits_emitFunction policy globals [] s body
  have hdeclared := hbody.keeps.declared
  simp only [functionStart, returnSlot, h, if_true, Option.map_some,
    Typing.ReturnSlot.ofDeclared] at hdeclared
  obtain ⟨slot, hslot, hs⟩ := Option.map_eq_some_iff.1 hdeclared
  rw [hreturns, hslot, Option.elim_some, Typing.ReturnSlot.type, hs]
  rfl

/-- **Calls and functions agree on return types exactly if the return types of all functions that
are called are settled**; annotated ones always are. -/
theorem callTypes_agree_iff (policy : Policy) (m : Source.Module) :
    ((∀ f ∈ (emit policy m).program.functions, ¬ Target.IsLibrary f.name →
        ∀ t ∈ (emit policy m).program.callTypes f.name, t = f.returns) ↔
      ∀ d ∈ m.body, ∀ s body, declared? (programGlobals policy m.body) d = some (s, body) →
        ¬ Target.IsLibrary s.name → (emit policy m).program.callTypes s.name ≠ [] →
        (inferOne policy (programGlobals policy m.body, false) d).2 = false) ∧
    ∀ d s body, declared? (programGlobals policy m.body) d = some (s, body) →
      s.annotated = true → (inferOne policy (programGlobals policy m.body, false) d).2 = false := by
  obtain ⟨stop, hitems, -⟩ := emitsItems_emit policy m
  refine ⟨⟨?_, ?_⟩, ?_⟩
  · intro h d hd s body hdecl hname hcalled
    obtain ⟨t, ht⟩ := List.exists_mem_of_ne_nil _ hcalled
    obtain ⟨s', hs', rfl⟩ := type_of_mem_callTypes ht hname
    obtain rfl := Option.some.inj ((declared?_eq_some hdecl).1.symm.trans hs')
    rw [inferOne_unchanged_iff hdecl]
    exact h _ (hitems.mem_functions.2 ⟨d, hd, s, body, hdecl, rfl⟩) hname _ ht
  · intro h f hf hname t ht
    obtain ⟨d, hd, s, body, hdecl, rfl⟩ := hitems.mem_functions.1 hf
    obtain ⟨s', hs', rfl⟩ := type_of_mem_callTypes ht hname
    obtain rfl := Option.some.inj ((declared?_eq_some hdecl).1.symm.trans hs')
    exact (inferOne_unchanged_iff hdecl).1 (h d hd s body hdecl hname (List.ne_nil_of_mem ht))
  · intro d s body hdecl hannotated
    rw [inferOne_unchanged_iff hdecl]
    exact (returns_emitFunction_of_annotated hannotated).symm

end Lowering

open Source.Compose in
/-- A function that returns a truth value if it returns a string, and a string if it does not. -/
def Source.oscillating : Source.Module :=
  script
    [functionDef "f" [] none
      [assign "z" (binary (call (name "f") [] []) .add (str "s")),
       ret (some (compare (name "z") [(.eq, str "a")])),
       ret (some (str "s"))],
     expr (call (name "f") [] [])]

/-- The call of a function whose return type does not settle carries another type. -/
theorem Lowering.oscillating_disagrees :
    ¬ ∀ f ∈ (emit ⟨.template, .keep⟩ Source.oscillating).program.functions,
      ∀ t ∈ (emit ⟨.template, .keep⟩ Source.oscillating).program.callTypes f.name,
        t = f.returns := by
  decide +kernel

end StaticScript
