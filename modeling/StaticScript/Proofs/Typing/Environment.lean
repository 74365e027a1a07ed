import StaticScript.Typing.Environment
import Mathlib.Data.List.Basic

/-!
# Scopes

A name is looked up in the scopes as if they were one list of bindings, the innermost scope first
(`Environment.lookup_eq`).  A name that is bound nowhere is declared in the innermost scope
(`Environment.bind_of_lookup`), and leaving a scope brings back what was there when it was entered
(`Environment.pop_of_outer`).  Functions are looked up by their names, whatever their return types
(`Globals.function?_setReturns`), and an import takes nothing away (`Globals.Grows`).
-/

namespace StaticScript

namespace Globals

variable {g : Globals} {name : String} {s : Signature}

theorem name_of_function? (h : g.function? name = some s) : s.name = name := by
  simpa using List.find?_some h

theorem function?_congr {g' : Globals} (h : g'.functions = g.functions) (name : String) :
    g'.function? name = g.function? name := by
  simp only [function?, h]

theorem function?_declare (g : Globals) (s : Signature) (name : String) :
    (g.declare s).function? name = if s.name = name then some s else g.function? name := by
  simp only [function?, declare, List.find?_cons]
  by_cases hname : s.name = name
  · simp [hname]
  · have hother :
        (fun t : Signature => decide ((t.name != s.name) = true ∧ (t.name == name) = true))
          = fun t => t.name == name := by
      funext t
      by_cases ht : t.name = name
      · simp [ht, Ne.symm hname]
      · simp [ht]
    simp only [if_neg hname, beq_eq_false_iff_ne.2 hname, List.find?_filter, hother]

theorem function?_setReturns (g : Globals) (name : String) (type : StaticType) (other : String) :
    (g.setReturns name type).function? other = (g.function? other).map fun s =>
      if s.name = name then { s with returns := type } else s := by
  have hname : ∀ s : Signature,
      (if s.name = name then { s with returns := type } else s).name = s.name := by
    intro s
    split <;> rfl
  simp only [function?, setReturns, List.find?_map, Function.comp_def, hname]

/-- The functions are the same, and what was imported still is. -/
structure Grows (g g' : Globals) : Prop where
  functions : g'.functions = g.functions
  mathModule : g.mathModule = true → g'.mathModule = true
  mathFunctions : g.mathFunctions ⊆ g'.mathFunctions

theorem Grows.refl (g : Globals) : g.Grows g := ⟨rfl, id, List.Subset.refl _⟩

theorem Grows.trans {g₁ g₂ g₃ : Globals} (h : g₁.Grows g₂) (h' : g₂.Grows g₃) : g₁.Grows g₃ where
  functions := h'.functions.trans h.functions
  mathModule hmath := h'.mathModule (h.mathModule hmath)
  mathFunctions := List.Subset.trans h.mathFunctions h'.mathFunctions

theorem grows_importMath (g : Globals) : g.Grows g.importMath :=
  ⟨rfl, fun _ => rfl, List.Subset.refl _⟩

theorem grows_importFunction (g : Globals) (name : String) : g.Grows (g.importFunction name) := by
  unfold importFunction
  split
  · exact .refl g
  · exact ⟨rfl, id, List.subset_cons_self _ _⟩

theorem grows_importFunctions (names : List String) (g : Globals) :
    g.Grows (names.foldl importFunction g) := by
  induction names generalizing g with
  | nil => exact .refl g
  | cons name names ih => exact (g.grows_importFunction name).trans (ih _)

end Globals

namespace Environment

/-- Declares a name in the innermost scope. -/
def declare (env : Environment) (name : String) (type : StaticType) : Environment :=
  { env with innermost := (name, type) :: env.innermost }

/-- All bindings, those of the innermost scope first. -/
def scope (env : Environment) : Frame := env.frames.flatten

section

variable (env : Environment)

@[simp] theorem innermost_push : env.push.innermost = [] := rfl
@[simp] theorem outer_push : env.push.outer = env.frames := rfl
@[simp] theorem globals_push : env.push.globals = env.globals := rfl
@[simp] theorem outer_declare (x : String) (t : StaticType) :
    (env.declare x t).outer = env.outer := rfl
@[simp] theorem globals_declare (x : String) (t : StaticType) :
    (env.declare x t).globals = env.globals := rfl
@[simp] theorem innermost_declare (x : String) (t : StaticType) :
    (env.declare x t).innermost = (x, t) :: env.innermost := rfl
@[simp] theorem frames_push : env.push.frames = [] :: env.frames := rfl
@[simp] theorem scope_push : env.push.scope = env.scope := rfl
@[simp] theorem scope_declare (x : String) (t : StaticType) :
    (env.declare x t).scope = (x, t) :: env.scope := rfl
@[simp] theorem frames_mapGlobals (f : Globals → Globals) :
    (env.mapGlobals f).frames = env.frames := rfl

@[simp] theorem outer_bind (x : String) (t : StaticType) : (env.bind x t).2.outer = env.outer := by
  unfold bind
  split <;> rfl
@[simp] theorem globals_bind (x : String) (t : StaticType) :
    (env.bind x t).2.globals = env.globals := by
  unfold bind
  split <;> rfl

end

variable {env : Environment} {x y : String} {t : StaticType}

theorem lookup_flatten (fs : List Frame) (x : String) :
    fs.flatten.lookup x = fs.findSome? fun f => f.lookup x := by
  induction fs with
  | nil => rfl
  | cons f fs ih =>
    rw [List.flatten_cons, List.lookup_append, ih, List.findSome?_cons]
    cases f.lookup x <;> rfl

theorem lookup_eq : env.lookup x = env.scope.lookup x := (lookup_flatten _ _).symm

theorem lookup_of_frames {env' : Environment} (h : env'.frames = env.frames) :
    env'.lookup x = env.lookup x := by
  unfold lookup
  rw [h]

theorem frames_bind {env' : Environment} (h : env'.frames = env.frames) (x : String)
    (t : StaticType) : (env'.bind x t).2.frames = (env.bind x t).2.frames := by
  obtain ⟨hinner, houter⟩ := List.cons.inj h
  unfold bind
  rw [hinner]
  split
  · simp only [frames, houter]
  · exact h

@[simp] theorem lookup_push : env.push.lookup x = env.lookup x := rfl

theorem lookup_declare :
    (env.declare x t).lookup y = if y = x then some t else env.lookup y := by
  simp only [lookup, frames, declare, List.findSome?_cons, List.lookup_cons]
  by_cases h : y = x
  · simp [h]
  · simp [h, beq_false_of_ne h]

/-- A name that is bound nowhere can be declared. -/
theorem bind_of_lookup (h : env.lookup x = none) : env.bind x t = (.accepted, env.declare x t) := by
  have hinner : env.innermost.lookup x = none := by
    simp only [lookup, frames, List.findSome?_cons] at h
    split at h
    · cases h
    · assumption
  simp only [bind, hinner]
  rfl

/-- Leaving a scope brings back the scopes from before it was entered. -/
theorem pop_of_outer {env' : Environment} (h : env'.outer = env.frames) :
    env'.pop = { env with globals := env'.globals } := by
  simp [pop, h, frames]

end Environment

end StaticScript
