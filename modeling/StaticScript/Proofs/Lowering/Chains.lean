import StaticScript.Proofs.Lowering.Alike
import StaticScript.Proofs.Lowering.Refusals
import StaticScript.Source.Compose

/-!
# Chains of conditionals

An `elif` is a conditional that stands alone behind an `if`, in its `else`.  It is not emitted as
such: its branches are put behind those of the `if`, and so are the branches of the `elif`s that
follow it.  On this way no scope is entered for the `else`, and each condition is checked when it is
reached, with what the branches before it have imported and returned.

All the same nothing else comes out than if the `else` were a block like any other.  A scope in
which no name is bound makes no difference to the types that are found for names, so lowering does
the same within it and leaves it as it was (`lowerElse_push`).

**Main theorem** (`lowerStmt_ifElse`): what an `if` becomes is determined by what its body and its
`else` become as blocks.  If the `else` is an `elif`, the block is one conditional, whose branches
are the further branches of the `if`; otherwise the block is the last branch.
-/

namespace StaticScript

namespace Lowering

open Source (Stmt)

/-- The statements behind an `if` are an `elif`: a single conditional whose condition passes its
check. -/
def isElif (policy : Policy) (env : Environment) : List Stmt → Bool
  | [.ifElse _ condition _ _] => (Typing.checkCondition env policy condition).isOk
  | _ => false

/-! ### A scope without names -/

/-- The two runs start on the same statements, and both count everything that was left out. -/
def Comparison.plain : Comparison := ⟨Set.univ, id, id, fun _ => rfl, [], []⟩

variable {policy : Policy} {st : State}

theorem Comparison.alike_push (st : State) : plain.Alike st st.push :=
  ⟨st.env.alike_push _, rfl, st.records, rfl, (List.map_id _).symm⟩

/-- States that are alike differ by the scope that one of them was reached in, and nothing else. -/
theorem Comparison.Alike.eq_push {st₁ st₂ : State} (h : Comparison.plain.Alike st₁ st₂)
    (h₁ : st.SameScope st₁) (h₂ : st.push.SameScope st₂) : st₂ = st₁.push := by
  obtain ⟨new, hnew, hnew'⟩ := h.records
  have hrecords : st₂.records = st₁.records := by
    rw [hnew, hnew']
    exact congrArg _ (List.map_id new)
  obtain ⟨⟨inner₁, outer₁, ⟨functions₁, module₁, names₁⟩⟩, returns₁, records₁⟩ := st₁
  obtain ⟨⟨inner₂, outer₂, ⟨functions₂, module₂, names₂⟩⟩, returns₂, records₂⟩ := st₂
  obtain rfl : records₂ = records₁ := hrecords
  obtain rfl : returns₂ = returns₁ := h.returns
  obtain rfl : module₂ = module₁ := h.env.globals.mathModule
  obtain rfl : names₂ = names₁ := h.env.globals.mathFunctions
  -- Being alike says less of functions and scopes than equality; no statement changes these.
  obtain rfl : functions₂ = functions₁ := h₂.functions.trans h₁.functions.symm
  obtain rfl : inner₁ = st.env.innermost := h₁.innermost
  obtain rfl : outer₁ = st.env.outer := h₁.outer
  obtain rfl : inner₂ = [] := h₂.innermost
  obtain rfl : outer₂ = st.env.frames := h₂.outer
  rfl

theorem sameScope_lowerElse (st : State) (ss : List Stmt) :
    st.SameScope (lowerElse policy st ss).2 := by
  rcases h : lowerElse policy st ss with ⟨c | ⟨branches, last⟩, st'⟩
  · exact ((elseSpec st ss).error c st' h).1
  · exact ((elseSpec st ss).ok branches last st' h).sameScope

/-- **A scope without names makes no difference** to what stands behind an `if`. -/
theorem lowerElse_push (st : State) (ss : List Stmt) :
    lowerElse policy st.push ss =
      ((lowerElse policy st ss).1, (lowerElse policy st ss).2.push) := by
  have hsame : Comparison.plain.Same _ (lowerElse policy st ss)
      (lowerElse policy st.push (ss.map (Stmt.mapSite id))) :=
    lowerElse_congr (Comparison.alike_push st) ss fun _ _ _ _ => Set.mem_univ _
  rw [Stmt.mapBlock_id] at hsame
  refine Prod.ext ?_ (hsame.state.eq_push (sameScope_lowerElse st ss) (sameScope_lowerElse _ ss))
  rw [hsame.result]
  cases (lowerElse policy st ss).1 with
  | error c => rfl
  | ok r =>
    obtain ⟨branches, last⟩ := r
    simp [Comparison.changeElse, Comparison.plain, Except.map, Target.Stmt.mapSourceBranches_id,
      Target.Stmt.mapSourceElse_id]

/-! ### What stands behind an `if` -/

/-- What is no `elif` becomes the last branch, as a block. -/
theorem lowerElse_of_not_isElif {ss : List Stmt} (hne : ss ≠ [])
    (h : isElif policy st.env ss = false) :
    lowerElse policy st ss =
      (.ok ([], some (emitBlock policy st ss).1), (emitBlock policy st ss).2) := by
  obtain ⟨s, ss, rfl⟩ := List.exists_cons_of_ne_nil hne
  cases s with
  | ifElse site c body orelse =>
    cases ss with
    | nil =>
      rw [isElif] at h
      simp only [lowerElse, h]
      rfl
    | cons s ss =>
      simp only [lowerElse]
      rfl
  | _ =>
    simp only [lowerElse]
    rfl

/-- An `elif` becomes the branches that it has as a statement. -/
theorem lowerStmt_eq_lowerElse {s : Stmt} (h : isElif policy st.env [s] = true) :
    lowerStmt policy st s = ((lowerElse policy st [s]).1.map fun r => [.ifElse r.1 r.2],
      (lowerElse policy st [s]).2) := by
  cases s with
  | ifElse site c body orelse =>
    rw [isElif] at h
    simp only [lowerStmt, lowerElse, h, if_true]
    cases lower st.env policy .condition c with
    | error d => rfl
    | ok t =>
      dsimp only
      rcases lowerElse policy (lowerBlock policy st.push body).2.pop orelse with
        ⟨d | ⟨branches, last⟩, st'⟩ <;> rfl
  | _ => cases h

/-- An `elif` passes its check. -/
theorem classify_of_isElif {s : Stmt} (h : isElif policy st.env [s] = true) (level : Bool) :
    Typing.classify st.env policy level st.returns s = .direct := by
  cases s with
  | ifElse site c body orelse => exact (Typing.classify_ifElse_eq_direct_iff _ _).2 h
  | _ => cases h

theorem isElif_push (policy : Policy) (env : Environment) (ss : List Stmt) :
    isElif policy env.push ss = isElif policy env ss := by
  have hcondition : ∀ c, Typing.checkCondition env.push policy (Source.Expr.mapSite id c) =
      Typing.checkCondition env policy c := fun c =>
    Typing.checkCondition_congr id (env.alike_push Set.univ) fun _ _ => Set.mem_univ _
  simp only [Source.Expr.mapSite_id, id] at hcondition
  unfold isElif
  split
  · rw [hcondition]
  · rfl

/-- An `elif` that becomes branches is as a block the conditional that has these branches. -/
theorem emitBlock_of_isElif {s : Stmt} {branches : List (Target.Expr × Block)}
    {last : Option Block} {st' : State} (h : isElif policy st.env [s] = true)
    (helse : lowerElse policy st [s] = (.ok (branches, last), st')) :
    emitBlock policy st [s] = ([.ifElse branches last], st') := by
  have hpush : isElif policy st.push.env [s] = true := (isElif_push policy st.env [s]).trans h
  have hlower : lowerStmt policy st.push s = (.ok [.ifElse branches last], st'.push) := by
    rw [lowerStmt_eq_lowerElse hpush, lowerElse_push, helse]
    rfl
  simp only [emitBlock, lowerBlock, settle, classify_of_isElif hpush, hlower]
  rfl

/-- **An `if` becomes what its body and its `else` become as blocks.**  The `else` is reached with
what is known behind the body.  An `elif` is as a block the conditional of the further branches;
anything else is the last branch. -/
theorem lowerStmt_ifElse (policy : Policy) (level : Bool) (st : State) (site : Source.Site)
    (c : Source.Expr) (body orelse : List Stmt) (hne : orelse ≠ [])
    (hops : (Stmt.ifElse site c body orelse).hasOperands = true)
    (hdirect : Typing.classify st.env policy level st.returns (.ifElse site c body orelse) =
      .direct) :
    let first := emitBlock policy st body
    let rest := emitBlock policy first.2 orelse
    ∃ c' branches last, lower st.env policy .condition c = .ok c' ∧
      lowerStmt policy st (.ifElse site c body orelse) =
        (.ok [.ifElse ((c', first.1) :: branches) last], rest.2) ∧
      if isElif policy first.2.env orelse = true then rest.1 = [.ifElse branches last]
      else branches = [] ∧ last = some rest.1 := by
  intro first rest
  rw [Stmt.hasOperands_ifElse] at hops
  obtain ⟨hopsCondition, -, hopsElse⟩ := hops
  rw [Typing.classify_ifElse_eq_direct_iff] at hdirect
  obtain ⟨u, hu⟩ := Checked.isOk_iff.1 hdirect
  obtain ⟨c', hc⟩ := lower_of_checkCondition hopsCondition hu
  obtain ⟨branches, last, st', helse⟩ := exists_lowerElse policy first.2 hopsElse
  have hlower : lowerStmt policy st (.ifElse site c body orelse) =
      (.ok [.ifElse ((c', first.1) :: branches) last], st') := by
    have helse : lowerElse policy (lowerBlock policy st.push body).2.pop orelse =
        (.ok (branches, last), st') := helse
    simp only [lowerStmt, hc, helse]
    rfl
  refine ⟨c', branches, last, hc, ?_⟩
  by_cases helif : isElif policy first.2.env orelse = true
  · rw [if_pos helif]
    obtain ⟨s, rfl⟩ : ∃ s, orelse = [s] := by
      unfold isElif at helif
      split at helif
      · exact ⟨_, rfl⟩
      · cases helif
    have hrest : rest = ([.ifElse branches last], st') := emitBlock_of_isElif helif helse
    rw [hrest]
    exact ⟨hlower, rfl⟩
  · rw [if_neg helif]
    rw [lowerElse_of_not_isElif hne (Bool.eq_false_iff.2 helif)] at helse
    obtain ⟨hresult, rfl⟩ := Prod.mk.inj helse
    obtain ⟨rfl, rfl⟩ := Prod.mk.inj (Except.ok.inj hresult)
    exact ⟨hlower, rfl, rfl⟩

end Lowering

namespace Source

open Compose

/-- A branch that imports, leaves something out, and returns. -/
def importing : List Stmt :=
  [importNames ["math"], assign "x" (list []), ret (some (int 1))]

/-- Two `elif`s and an `else`.  The first condition has no counterpart without the import. -/
def alternatives : List Stmt :=
  [ifElse (compare (call (attr (name "math") "sqrt") [name "n"] []) [(.gt, int 2)])
    [augAssign "n" .add (int 1)]
    [ifElse (compare (name "n") [(.eq, int 3)]) [assign "y" (name "n")]
      [assign "y" (tuple []), ret (some (int 2))]]]

end Source

namespace Lowering

/-- The `elif`s of a chain are further branches, the first of them thanks to the import in the
branch before it.  What both blocks left out and returned is known behind the chain. -/
theorem importing_flattened :
    let policy : Policy := ⟨.template, .keep⟩
    let st : State := ⟨.scaled, some .empty, []⟩
    let chain := Source.Compose.ifElse (Source.Compose.name "n") Source.importing
      Source.alternatives
    let first := emitBlock policy st Source.importing
    let rest := emitBlock policy first.2 Source.alternatives
    (Source.alternatives ≠ [] ∧ chain.hasOperands = true ∧
      Typing.classify st.env policy false st.returns chain = .direct ∧
      isElif policy st.env Source.alternatives = false ∧
      isElif policy first.2.env Source.alternatives = true) ∧
    rest.2.records.map (·.source) = ["x = []", "y = ()"] ∧
    ∃ c' branches last, lowerStmt policy st chain =
        (.ok [.ifElse ((c', first.1) :: branches) last], rest.2) ∧
      rest.1 = [.ifElse branches last] := by
  intro policy st chain first rest
  have hne : Source.alternatives ≠ [] := List.cons_ne_nil _ _
  have hops : chain.hasOperands = true := by decide +kernel
  have hdirect : Typing.classify st.env policy false st.returns chain = .direct := by
    decide +kernel
  have helif : isElif policy first.2.env Source.alternatives = true := by decide +kernel
  obtain ⟨c', branches, last, -, hlower, hrest⟩ :=
    lowerStmt_ifElse policy false st _ _ Source.importing Source.alternatives hne hops hdirect
  rw [if_pos helif] at hrest
  exact ⟨⟨hne, hops, hdirect, by decide +kernel, helif⟩, by decide +kernel, c', branches, last,
    hlower, hrest⟩

end Lowering

end StaticScript
