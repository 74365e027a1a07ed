import StaticScript.Proofs.Lowering.Calls
import StaticScript.Proofs.Lowering.Correspondence
import StaticScript.Proofs.Source.Sites
import StaticScript.Source.Compose

/-!
# Functions do not depend on `main`

What a function becomes is fixed by the definitions and imports of the script.  Every pass before
the last goes over the other statements without a change: they note no import
(`noteImport_of_not_isGlobal`), they declare no function (`noteFunction_of_not_isGlobal`), and no
return type is found in them (`declared?_of_not_isGlobal`).  So the functions of a script are those
of its definitions and imports alone (`programGlobals_filter`, `functions_emit`).

What is left may be numbered otherwise, and the numbers matter only where one statement is told from
another (`Correspondence.functions_congr`).

**Main theorem** (`functions_emit_congr`): scripts with the same definitions and imports in the same
order have the same functions, whatever their other statements are and wherever they stand.
-/

namespace StaticScript

/-- A statement at module level that functions depend on: a definition or an import. -/
def Source.Stmt.isGlobal (s : Stmt) : Bool := s.isDefinition || Lowering.isImport s

namespace Lowering

open Source (Site Stmt)

variable {policy : Policy} {s : Stmt}

/-! ### The other statements -/

theorem noteImport_of_not_isGlobal (h : s.isGlobal = false) (env : Environment) :
    noteImport policy env s = env := by
  cases s with
  | importNames | importFrom => cases h
  | _ => rfl

theorem noteFunction_of_not_isGlobal (h : s.isGlobal = false) (g : Globals) :
    noteFunction policy g s = g := by
  cases s with
  | functionDef => cases h
  | _ => rfl

theorem declared?_of_not_isGlobal (h : s.isGlobal = false) (g : Globals) :
    declared? g s = none :=
  Correspondence.declared?_of_not_isDefinition (Bool.or_eq_false_iff.1 h).1 g

/-- Going over the statements of a script, the others may be passed over if they change nothing. -/
theorem foldl_filter_isGlobal {α : Type} {f : α → Stmt → α}
    (h : ∀ s, s.isGlobal = false → ∀ a, f a s = a) (body : List Stmt) (a : α) :
    (body.filter Stmt.isGlobal).foldl f a = body.foldl f a := by
  -- To filter the statements is to test each of them on the way.
  have hstep : (fun a s => if s.isGlobal = true then f a s else a) = f := by
    funext a s
    by_cases hs : s.isGlobal = true
    · exact if_pos hs
    · rw [if_neg hs, h s (Bool.eq_false_iff.2 hs)]
  rw [List.foldl_filter, hstep]

theorem hoist_filter (policy : Policy) (body : List Stmt) :
    hoist policy (body.filter Stmt.isGlobal) = hoist policy body := by
  unfold hoist
  rw [foldl_filter_isGlobal fun _ => noteImport_of_not_isGlobal,
    foldl_filter_isGlobal fun _ => noteFunction_of_not_isGlobal]

/-- **The functions and imports of a script are those of its definitions and imports.** -/
theorem programGlobals_filter (policy : Policy) (body : List Stmt) :
    programGlobals policy (body.filter Stmt.isGlobal) = programGlobals policy body := by
  have hpending : (body.filter Stmt.isGlobal).filter (isPending (hoist policy body)) =
      body.filter (isPending (hoist policy body)) := by
    rw [List.filter_filter]
    refine List.filter_congr fun s _ => ?_
    by_cases hs : s.isGlobal = true
    · rw [hs, Bool.and_true]
    · have hs := Bool.eq_false_iff.2 hs
      rw [hs, Bool.and_false, isPending, declared?_of_not_isGlobal hs, Option.any_none]
  unfold programGlobals inferReturns
  rw [hoist_filter, hpending]

/-! ### The functions of a program -/

/-- The functions that statements define, where `g` is known. -/
def functionsOf (policy : Policy) (g : Globals) (body : List Stmt) : List Target.Function :=
  body.filterMap fun d => (declared? g d).map fun f => (emitFunction policy g [] f.1 f.2).1

/-- **The functions of a program are those of the definitions and imports of the script.** -/
theorem functions_emit (policy : Policy) (m : Source.Module) :
    (emit policy m).program.functions =
      functionsOf policy (programGlobals policy (m.body.filter Stmt.isGlobal))
        (m.body.filter Stmt.isGlobal) := by
  obtain ⟨stop, hitems, -⟩ := emitsItems_emit policy m
  rw [programGlobals_filter, functionsOf, List.filterMap_filter]
  refine (hitems.functions_eq _).trans (List.filterMap_congr fun d _ => ?_)
  by_cases hd : d.isGlobal = true
  · rw [if_pos hd]
  · rw [if_neg hd, declared?_of_not_isGlobal (Bool.eq_false_iff.2 hd), Option.map_none]

namespace Correspondence

variable {V : Correspondence} {g g' : StaticScript.Globals} {d d' : Stmt}

/-- Corresponding definitions become the same function, up to the texts of what is left out. -/
theorem Globals.function_congr (policy : Policy) (hg : V.Globals g g') (hd : V.Stmts d d') :
    ((Lowering.declared? g' d').map fun f =>
        (emitFunction policy g' [] f.1 f.2).1.mapSource V.text) =
      (Lowering.declared? g d).map fun f =>
        (emitFunction policy g [] f.1 f.2).1.mapSource V.text := by
  rcases hg.declared? hd with ⟨hs, hs'⟩ | ⟨s, body, s', body', hs, hs', halike, hbody⟩
  · rw [hs, hs', Option.map_none, Option.map_none]
  · rw [hs, hs', Option.map_some, Option.map_some]
    exact congrArg some (emitFunction_congr policy hg.alike halike hbody [] []).1

theorem functions_congr (policy : Policy) (hg : V.Globals g g') {body body' : List Stmt}
    (h : List.Forall₂ V.Stmts body body') :
    (functionsOf policy g' body').map (Target.Function.mapSource V.text) =
      (functionsOf policy g body).map (Target.Function.mapSource V.text) := by
  simp only [functionsOf, List.map_filterMap, Option.map_map, Function.comp_def]
  induction h with
  | nil => rfl
  | cons hd _ ih => rw [List.filterMap_cons, List.filterMap_cons, ih, hg.function_congr policy hd]

end Correspondence

/-! ### Two scripts -/

theorem nodup_ids_filter {m : Source.Module} (h : m.sites.length < UInt32.size)
    (p : Stmt → Bool) : ((m.number.body.filter p).map fun s => s.site.id).Nodup :=
  (Source.Module.nodup_ids_number h).sublist (List.filter_sublist.map _)

/-- **Functions do not depend on `main`**: if the definitions and imports of two scripts are the
same up to their numbers, then the two programs have the same functions. -/
theorem functions_emit_congr (policy : Policy) (m m' : Source.Module)
    (hsize : m.sites.length < UInt32.size) (hsize' : m'.sites.length < UInt32.size)
    (hsame : (m'.number.body.filter Stmt.isGlobal).map (Stmt.mapSite Site.unnumbered) =
      (m.number.body.filter Stmt.isGlobal).map (Stmt.mapSite Site.unnumbered)) :
    (emit policy m'.number).program.functions = (emit policy m.number).program.functions := by
  obtain ⟨V, htext, hbody⟩ : ∃ V : Correspondence, V.text = id ∧ List.Forall₂ V.Stmts
      (m.number.body.filter Stmt.isGlobal) (m'.number.body.filter Stmt.isGlobal) :=
    ⟨.byPlace _ _ (nodup_ids_filter hsize _) (nodup_ids_filter hsize' _), rfl,
      Correspondence.forall₂_byPlace hsame _ _⟩
  have hid : Target.Function.mapSource V.text = id := by
    rw [htext]
    exact funext Target.Function.mapSource_id
  have hg : V.Globals (programGlobals policy _) (programGlobals policy _) :=
    Correspondence.globals_programGlobals hbody
  have hfunctions := Correspondence.functions_congr policy hg hbody
  rw [hid, List.map_id, List.map_id] at hfunctions
  rw [functions_emit, functions_emit, hfunctions]

end Lowering

namespace Source

open Compose

/-- Calls a function that is defined below it, and leaves out an empty list. -/
def caller : Stmt :=
  functionDef "f" [] Option.none
    [assign "x" (list []), ret (some (call (name "root") [int 4] []))]

/-- Needs an import, and has a return type that is to be found. -/
def root : Stmt :=
  functionDef "root" [⟨"n", some "int", Option.none, .positional⟩] Option.none
    [ret (some (call (attr (name "math") "sqrt") [name "n"] []))]

/-- A script that prints what a function returns. -/
def printing : Module :=
  script [caller, root, importNames ["math"], expr (call (name "print") [call (name "f") [] []] [])]

/-- A script with the same functions and import between other statements. -/
def interrupted : Module :=
  script [assign "f" (int 1), caller, whileLoop (bool true) [brk], root, assign "n" (str "text"),
    importNames ["math"]]

end Source

/-- What is printed, stored or repeated between definitions does not change them. -/
theorem Lowering.functions_interrupted :
    (Source.printing.sites.length < UInt32.size ∧ Source.interrupted.sites.length < UInt32.size ∧
      (Source.interrupted.number.body.filter Source.Stmt.isGlobal).map
          (Source.Stmt.mapSite Source.Site.unnumbered) =
        (Source.printing.number.body.filter Source.Stmt.isGlobal).map
          (Source.Stmt.mapSite Source.Site.unnumbered)) ∧
    (emit ⟨.template, .keep⟩ Source.interrupted.number).program.functions =
      (emit ⟨.template, .keep⟩ Source.printing.number).program.functions ∧
    ((emit ⟨.template, .keep⟩ Source.printing.number).program.functions.map fun f =>
      (f.name, f.returns, f.body.length)) = [("f", .floating, 2), ("root", .floating, 1)] := by
  have hsize : Source.printing.sites.length < UInt32.size := by decide +kernel
  have hsize' : Source.interrupted.sites.length < UInt32.size := by decide +kernel
  have hsame : (Source.interrupted.number.body.filter Source.Stmt.isGlobal).map
        (Source.Stmt.mapSite Source.Site.unnumbered) =
      (Source.printing.number.body.filter Source.Stmt.isGlobal).map
        (Source.Stmt.mapSite Source.Site.unnumbered) := rfl
  exact ⟨⟨hsize, hsize', hsame⟩, functions_emit_congr _ _ _ hsize hsize' hsame, by decide +kernel⟩

end StaticScript
