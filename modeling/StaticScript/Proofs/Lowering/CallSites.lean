import StaticScript.Proofs.Lowering.Calls
import StaticScript.Proofs.Source.Sites
import StaticScript.Source.Compose

/-!
# Calls and the functions they call

In a program the arguments of a call are taken in order, and a parameter that gets none must have a
default where the function is declared (`Target.Accepts`).  However the arguments are written in the
script, with names, out of order or left to their defaults, every call of the program that is not
one of the standard library names exactly one function, and this function accepts its arguments
(`calls_accepted`).

The two sides meet in the signature: the call passes what the signature takes (`Passes`), and the
function is declared with the parameters of the signature (`functionParams`).
-/

namespace StaticScript

namespace Target

/-- The parameter takes the expression.  A type parameter would take a string literal for a
pointer. -/
def ParamType.accepts : ParamType → Expr → Bool
  | .concrete t, e => e.type == t || e.type == .integer && t == .floating
  | .generic _, e => e.type != .void && !e.isText

/-- The arguments can be passed for the parameters: there are not too many, each fits the parameter
in its place, and the parameters behind the last one have defaults. -/
structure Accepts (params : List Param) (es : List Expr) : Prop where
  length_le : es.length ≤ params.length
  fits : ∀ (i : Nat) (p : Param) (e : Expr), params[i]? = some p → es[i]? = some e →
    p.type.accepts e = true
  defaults : ∀ p ∈ params.drop es.length, p.default.isSome = true

theorem accepts_nil {params : List Param} (h : ∀ p ∈ params, p.default.isSome = true) :
    Accepts params [] where
  length_le := Nat.zero_le _
  fits := by simp
  defaults := by simpa using h

theorem Accepts.cons {p : Param} {params : List Param} {e : Expr} {es : List Expr}
    (hp : p.type.accepts e = true) (h : Accepts params es) : Accepts (p :: params) (e :: es) where
  length_le := Nat.succ_le_succ h.length_le
  fits i q d hq hd := by
    cases i with
    | zero =>
      obtain rfl : p = q := by simpa using hq
      obtain rfl : e = d := by simpa using hd
      exact hp
    | succ i => exact h.fits i q d (by simpa using hq) (by simpa using hd)
  defaults := by simpa using h.defaults

/-- If no parameter has a default, there is an argument for each. -/
theorem Accepts.length_eq {params : List Param} {es : List Expr} (h : Accepts params es)
    (hnone : ∀ p ∈ params, p.default = none) : es.length = params.length := by
  by_contra hne
  have hlt : es.length < params.length := lt_of_le_of_ne h.length_le hne
  have hmem : params[es.length] ∈ params.drop es.length :=
    List.mem_drop_iff_getElem.2 ⟨0, by simpa using hlt, by simp⟩
  have hsome := h.defaults _ hmem
  rw [hnone _ (List.getElem_mem hlt)] at hsome
  cases hsome

/-- The nodes of all expressions of a program, those in the defaults of parameters included. -/
def Program.nodes (p : Program) : List Expr :=
  p.functions.flatMap (fun f => f.params.flatMap fun q => q.default.toList.flatMap Expr.nodes) ++
    p.exprNodes

end Target

namespace Lowering

open Source (Stmt)
open Target (Expr)

variable {policy : Policy}

/-! ### Arguments -/

theorem type_stringObject (e : Expr) :
    (stringObject e).type = if e.isText then .string else e.type := by
  unfold stringObject
  split <;> rfl

theorem isText_stringObject (e : Expr) : (stringObject e).isText = false := by
  unfold stringObject
  split
  · rfl
  · rename_i h
    exact Bool.eq_false_iff.2 h

theorem accepts_stringObject {e : Expr} (h : e.type ≠ .void) (name : String) :
    (Target.ParamType.generic name).accepts (stringObject e) = true := by
  have htype : (stringObject e).type ≠ .void := by
    rw [type_stringObject]
    split
    · decide
    · exact h
  simp [Target.ParamType.accepts, htype, isText_stringObject]

theorem accepts_of_assignable {e : Expr} {t : StaticType} (h : e.type.assignable t = true) :
    (Target.ParamType.concrete t).accepts e = true := by
  rw [Target.ParamType.accepts]
  revert h
  cases e.type <;> cases t <;> decide

/-- A parameter of a signature as it is declared. -/
def declaredParam (policy : Policy) (p : SignatureParam) : Target.Param :=
  ⟨p.name, p.type, match policy.defaults with | .keep => p.default | .skip => none⟩

theorem default_declaredParam_of_skip (h : policy.defaults = .skip) (p : SignatureParam) :
    (declaredParam policy p).default = none := by
  simp [declaredParam, h]

/-- What a call passes is accepted where the parameters are declared. -/
theorem accepts_of_passes {params : List SignatureParam} {es : List Expr}
    (hsound : ∀ p ∈ params, p.SoundDefault) (h : Passes policy params es) :
    Target.Accepts (params.map (declaredParam policy)) es := by
  induction h with
  | @rest params hdefaults hskip =>
    -- Where defaults are not declared, a call leaves nothing out.
    refine Target.accepts_nil fun q hq => ?_
    obtain ⟨p, hp, rfl⟩ := List.mem_map.1 hq
    cases hpolicy : policy.defaults with
    | keep => simpa [declaredParam, hpolicy] using hdefaults p hp
    | skip =>
      rw [hskip hpolicy] at hp
      cases hp
  | concrete hp hfits _ ih =>
    rw [List.forall_mem_cons] at hsound
    refine .cons ?_ (ih hsound.2)
    rw [declaredParam, hp]
    exact accepts_of_assignable hfits
  | generic hp hvoid _ ih =>
    rw [List.forall_mem_cons] at hsound
    refine .cons ?_ (ih hsound.2)
    rw [declaredParam, hp]
    exact accepts_stringObject hvoid _
  | default hp _ ih =>
    rw [List.forall_mem_cons] at hsound
    obtain ⟨-, t, ht, hfits⟩ := hsound.1 _ hp
    refine .cons ?_ (ih hsound.2)
    rw [declaredParam, ht]
    exact accepts_of_assignable hfits

/-! ### Functions -/

/-- The functions of a program have different names, if the statements of the script have different
numbers. -/
theorem nodup_names_emit {m : Source.Module} (hids : (m.body.map fun d => d.site.id).Nodup) :
    ((emit policy m).program.functions.map (·.name)).Nodup := by
  obtain ⟨stop, hitems, -⟩ := emitsItems_emit policy m
  have hfunctions := hitems.functions_eq (emit policy m).program.includes
  rw [hfunctions, List.Nodup, List.pairwise_map, List.pairwise_filterMap]
  rw [List.Nodup, List.pairwise_map] at hids
  refine hids.imp fun {d d'} hne f hf f' hf' hname => hne ?_
  obtain ⟨⟨s, b⟩, hd, rfl⟩ := Option.map_eq_some_iff.1 hf
  obtain ⟨⟨s', b'⟩, hd', rfl⟩ := Option.map_eq_some_iff.1 hf'
  exact id_eq_of_declared? hd hd' hname

theorem filter_eq_singleton_of_nodup {α : Type} {l : List α} (f : α → String)
    (h : (l.map f).Nodup) {a : α} (ha : a ∈ l) : (l.filter fun b => f b == f a) = [a] := by
  induction l with
  | nil => cases ha
  | cons b l ih =>
    rw [List.map_cons, List.nodup_cons] at h
    rcases List.mem_cons.1 ha with rfl | ha
    · rw [List.filter_cons_of_pos (by simp), List.filter_eq_nil_iff.2]
      intro c hc heq
      exact h.1 (List.mem_map.2 ⟨c, hc, beq_iff_eq.1 heq⟩)
    · rw [List.filter_cons_of_neg, ih h.2 ha]
      intro heq
      exact h.1 (List.mem_map.2 ⟨a, ha, (beq_iff_eq.1 heq).symm⟩)

/-! ### Calls -/

/-- The calls of a program are in the bodies of its functions and in `main`, not in defaults. -/
theorem call_mem_exprNodes {m : Source.Module} {name : String} {es : List Expr} {t : StaticType}
    (h : .call name es t ∈ (emit policy m).program.nodes) :
    .call name es t ∈ (emit policy m).program.exprNodes := by
  refine (List.mem_append.1 h).resolve_left fun hdefault => ?_
  obtain ⟨stop, hitems, -⟩ := emitsItems_emit policy m
  obtain ⟨f, hf, hdefault⟩ := List.mem_flatMap.1 hdefault
  obtain ⟨d, -, s, b, hd, rfl⟩ := hitems.mem_functions.1 hf
  obtain ⟨q, hq, hdefault⟩ := List.mem_flatMap.1 hdefault
  obtain ⟨v, hv, hcall⟩ := List.mem_flatMap.1 hdefault
  obtain ⟨p, hp, rfl⟩ := List.mem_map.1 hq
  have hs := List.mem_of_find?_eq_some (declared?_eq_some hd).1
  -- A default is a literal, and a literal is its own only node.
  have hliteral : v.isLiteral = true := by
    refine literalDefaults_programGlobals m.body s hs p hp v ?_
    cases hpolicy : policy.defaults with
    | keep => simpa [hpolicy] using hv
    | skip => simp [hpolicy] at hv
  rw [nodes_of_isLiteral hliteral, List.mem_singleton] at hcall
  rw [← hcall] at hliteral
  cases hliteral

/-- **Every call is accepted by the function that it calls**: a call in the program of a numbered
script names exactly one function of the program, which accepts its arguments, unless it is a call
of the standard library.  Where defaults are not declared, the call passes all arguments. -/
theorem calls_accepted (policy : Policy) (m : Source.Module) (hm : m.sites.length < UInt32.size)
    (name : String) (es : List Expr) (t : StaticType)
    (hcall : .call name es t ∈ (emit policy m.number).program.nodes)
    (hname : ¬ Target.IsLibrary name) :
    ∃ f, (emit policy m.number).program.functions.filter (·.name == name) = [f] ∧
      Target.Accepts f.params es ∧ (policy.defaults = .skip → es.length = f.params.length) := by
  obtain ⟨s, hs, hpasses, -⟩ := call_of_mem_exprNodes (call_mem_exprNodes hcall) hname
  obtain ⟨stop, hitems, -⟩ := emitsItems_emit policy m.number
  obtain ⟨d, hd, b, hdecl⟩ := exists_declared?_of_function? hs
  let f := (emitFunction policy (programGlobals policy m.number.body) [] s b).1
  have hf : f ∈ (emit policy m.number).program.functions :=
    hitems.mem_functions.2 ⟨d, hd, s, b, hdecl, rfl⟩
  have haccepts : Target.Accepts (functionParams policy s) es :=
    accepts_of_passes (soundDefaults_programGlobals _ s (List.mem_of_find?_eq_some hs)) hpasses
  refine ⟨f, ?_, haccepts, fun hskip => haccepts.length_eq fun q hq => ?_⟩
  · have hfname : f.name = name := Globals.name_of_function? hs
    rw [← hfname]
    exact filter_eq_singleton_of_nodup _ (nodup_names_emit (Source.Module.nodup_ids_number hm)) hf
  · obtain ⟨p, -, rfl⟩ := List.mem_map.1 hq
    exact default_declaredParam_of_skip hskip p

end Lowering

open Source.Compose in
/-- A script that calls a function with its arguments out of order, leaving out the second of four
parameters and the last one. -/
def Source.scaling : Source.Module :=
  ⟨0, "script.py",
    [functionDef "scale" [⟨"x", some "float", Option.none, .positional⟩,
        ⟨"factor", Option.none, some (int 2), .positional⟩,
        ⟨"label", some "str", Option.none, .positional⟩,
        ⟨"digits", Option.none, some (int 0), .positional⟩] Option.none
      [ret (some (binary (name "x") .mult (name "factor")))],
     expr (call (name "scale") [] [("label", str "a"), ("x", int 3)])], .unknown⟩

/-- The node is a call of the function with arguments of these types. -/
def Target.Expr.calls (function : String) (types : List StaticType) : Expr → Bool
  | .call name es _ => name == function && es.map (·.type) == types
  | _ => false

/-- The call passes three arguments, with the default of the second parameter written out. -/
theorem Lowering.scaling_accepted :
    Source.scaling.sites.length < UInt32.size ∧ ∃ es t,
      .call "scale" es t ∈ (emit ⟨.template, .keep⟩ Source.scaling.number).program.nodes ∧
      es.map (·.type) = [.integer, .integer, .string] ∧
      ∃ f, (emit ⟨.template, .keep⟩ Source.scaling.number).program.functions.filter
          (·.name == "scale") = [f] ∧ Target.Accepts f.params es := by
  have hsites : Source.scaling.sites.length < UInt32.size := by decide +kernel
  have hany : (emit ⟨.template, .keep⟩ Source.scaling.number).program.nodes.any
      (·.calls "scale" [.integer, .integer, .string]) = true := by decide +kernel
  have hname : ¬ Target.IsLibrary "scale" := by
    rintro ⟨name, h⟩
    simpa using congrArg String.toList h
  obtain ⟨n, hn, hcall⟩ := List.any_eq_true.1 hany
  cases n with
  | call function es t =>
    simp only [Target.Expr.calls, Bool.and_eq_true, beq_iff_eq] at hcall
    obtain ⟨rfl, htypes⟩ := hcall
    obtain ⟨f, hf, haccepts, -⟩ := calls_accepted _ _ hsites "scale" es t hn hname
    exact ⟨hsites, es, t, hn, htypes, f, hf, haccepts⟩
  | _ => cases hcall

end StaticScript
