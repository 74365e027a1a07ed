import StaticScript.Proofs.Lowering.Correspondence
import StaticScript.Source.Compose

/-!
# What remains of a statement that is left out

A statement is left out if its check fails, or if it passes its check and cannot be lowered after
all (`LeftOut`).  Lowering changes the state as it goes along, so the second case leaves no trace
only if nothing was changed before the failure.  That is so for all statements but one: the branches
of an `if` are lowered one after the other, and an `elif` may be given up after the branches before
it (`Abandons`, `lowerElse_eq_error_iff`).  The imports, the returns and the records of those
branches then stay, although the branches do not.

A condition that passes its check is given up only for an operator without operands
(`Abandons.exists_mem_conditions`).

**Main theorem** (`emitStmt_of_leftOut`): a statement that is left out becomes its comment and
leaves the scopes as they were, and nothing but its record remains of it exactly if no `elif` is
given up in another state.  `abandoned_remains` shows what else can remain.
-/

namespace StaticScript

namespace Source

mutual

/-- The conditions of an `if` and of the `elif`s that follow it. -/
def Stmt.conditions : Stmt → List Expr
  | .ifElse _ condition _ orelse => condition :: elifConditions orelse
  | _ => []

/-- The conditions of the `elif`s that follow an `if` and its body. -/
def elifConditions : List Stmt → List Expr
  | [s] => s.conditions
  | _ => []

end

end Source

namespace Lowering

open Source (Stmt)

section

variable (policy : Policy)

/-- The statement itself is left out: it has no counterpart, or it turns out to have none when it is
lowered. -/
def LeftOut (level : Bool) (st : State) (s : Stmt) : Prop :=
  (Typing.classify st.env policy level st.returns s).isFailure = true ∨
    Typing.classify st.env policy level st.returns s = .direct ∧
      ∃ c st', lowerStmt policy st s = (.error c, st')

/-- Among conditionals that follow one another, one has a condition that passes its check and has no
counterpart; it is reached in the state `st'`, after the branches before it. -/
inductive Abandons : State → List Stmt → State → Prop
  | here {st : State} {site : Source.Site} {e : Source.Expr} {body orelse : List Stmt}
      {c : Category} (hcheck : (Typing.checkCondition st.env policy e).isOk = true)
      (hlower : lower st.env policy .condition e = .error c) :
      Abandons st [.ifElse site e body orelse] st
  | later {st st' : State} {site : Source.Site} {e : Source.Expr} {body orelse : List Stmt}
      {t : Target.Expr} (hcheck : (Typing.checkCondition st.env policy e).isOk = true)
      (hlower : lower st.env policy .condition e = .ok t)
      (hrest : Abandons (lowerBlock policy st.push body).2.pop orelse st') :
      Abandons st [.ifElse site e body orelse] st'

end

variable {policy : Policy} {level : Bool} {st st' : State} {s : Stmt} {c : Category}

/-! ### Conditions that are given up -/

theorem abandons_of_lowerElse {c : Category} {st' : State} (st : State) : (ss : List Stmt) →
    lowerElse policy st ss = (.error c, st') → Abandons policy st ss st'
  | [], h => by simp [lowerElse] at h
  | s :: ss, h => by
    cases s with
    | ifElse site e body orelse =>
      cases ss with
      | nil =>
        simp only [lowerElse] at h
        split at h
        · rename_i hcheck
          split at h
          · rename_i hlower
            obtain ⟨-, rfl⟩ := Prod.mk.inj h
            exact .here hcheck hlower
          · rename_i t hlower
            split at h
            · rename_i d st₁ helse
              obtain ⟨-, rfl⟩ := Prod.mk.inj h
              exact .later hcheck hlower (abandons_of_lowerElse _ orelse helse)
            · cases h
        · cases h
      | cons s ss => simp [lowerElse] at h
    | _ => simp [lowerElse] at h

/-- What stands behind an `if` cannot be lowered exactly if an `elif` is given up, and the state is
the one in which it is. -/
theorem lowerElse_eq_error_iff {ss : List Stmt} :
    (∃ c, lowerElse policy st ss = (.error c, st')) ↔ Abandons policy st ss st' := by
  constructor
  · rintro ⟨c, h⟩
    exact abandons_of_lowerElse st ss h
  · intro h
    induction h with
    | @here st site e body orelse c hcheck hlower =>
      exact ⟨c, by simp only [lowerElse, hcheck, hlower, if_true]⟩
    | later hcheck hlower _ ih =>
      obtain ⟨c, ih⟩ := ih
      exact ⟨c, by simp only [lowerElse, hcheck, hlower, ih, if_true]⟩

theorem Abandons.unique {ss : List Stmt} {st₁ st₂ : State} (h₁ : Abandons policy st ss st₁)
    (h₂ : Abandons policy st ss st₂) : st₁ = st₂ := by
  obtain ⟨c₁, h₁⟩ := lowerElse_eq_error_iff.2 h₁
  obtain ⟨c₂, h₂⟩ := lowerElse_eq_error_iff.2 h₂
  exact (Prod.mk.inj (h₁.symm.trans h₂)).2

theorem Abandons.sameScope {ss : List Stmt} (h : Abandons policy st ss st') :
    st.SameScope st' := by
  obtain ⟨c, h⟩ := lowerElse_eq_error_iff.2 h
  exact ((elseSpec st ss).error c st' h).1

/-- The condition that is given up has an operator without operands. -/
theorem Abandons.exists_mem_conditions {ss : List Stmt} (h : Abandons policy st ss st') :
    ∃ e ∈ Source.elifConditions ss, e.hasOperands = false := by
  induction h with
  | @here st site e body orelse c hcheck hlower =>
    refine ⟨e, List.mem_cons_self, Bool.eq_false_iff.2 fun hops => ?_⟩
    obtain ⟨u, hu⟩ := Checked.isOk_iff.1 hcheck
    obtain ⟨t, ht⟩ := lower_of_checkCondition hops hu
    rw [hlower] at ht
    cases ht
  | later _ _ _ ih =>
    obtain ⟨e, he, hops⟩ := ih
    exact ⟨e, List.mem_cons_of_mem _ he, hops⟩

/-! ### Statements that are left out -/

theorem eq_of_returnStmt_error {value : Option Source.Expr}
    (h : returnStmt policy st value = (.error c, st')) : st' = st := by
  unfold returnStmt at h
  split at h
  · exact (Prod.mk.inj h).2.symm
  · split at h
    · exact (Prod.mk.inj h).2.symm
    · dsimp only at h
      split at h
      · exact (Prod.mk.inj h).2.symm
      · cases h

/-- A statement other than an `if` that cannot be lowered changes nothing. -/
theorem eq_of_lowerStmt_error (hif : s.conditions = [])
    (h : lowerStmt policy st s = (.error c, st')) : st' = st := by
  cases s with
  | ifElse => cases hif
  | expr | functionDef | docString | comment | other =>
    simp only [lowerStmt] at h
    exact (Prod.mk.inj h).2.symm
  | assign site targets value =>
    rcases targets with _ | ⟨target, _ | _⟩
    · exact (Prod.mk.inj h).2.symm
    · simp only [lowerStmt] at h
      split at h
      · exact (Prod.mk.inj h).2.symm
      · split at h
        · exact (Prod.mk.inj h).2.symm
        · exact eq_of_assign_error h
    · exact (Prod.mk.inj h).2.symm
  | augAssign site target op value =>
    simp only [lowerStmt] at h
    split at h
    · exact (Prod.mk.inj h).2.symm
    · split at h
      · exact (Prod.mk.inj h).2.symm
      · exact eq_of_assign_error h
  | whileLoop =>
    simp only [lowerStmt] at h
    split at h
    · exact (Prod.mk.inj h).2.symm
    · cases h
  | forLoop =>
    simp only [lowerStmt] at h
    split at h
    · exact (Prod.mk.inj h).2.symm
    · split at h
      · exact (Prod.mk.inj h).2.symm
      · cases h
  | ret =>
    simp only [lowerStmt] at h
    exact eq_of_returnStmt_error h
  | brk | cont | pass | importNames | importFrom =>
    simp only [lowerStmt] at h
    cases h

/-- An `if` that passes its check and cannot be lowered has a condition that is given up. -/
theorem abandons_of_lowerStmt_ifElse {site : Source.Site} {e : Source.Expr}
    {body orelse : List Stmt} (hcheck : (Typing.checkCondition st.env policy e).isOk = true)
    (h : lowerStmt policy st (.ifElse site e body orelse) = (.error c, st')) :
    Abandons policy st [.ifElse site e body orelse] st' := by
  simp only [lowerStmt] at h
  split at h
  · rename_i hlower
    obtain ⟨-, rfl⟩ := Prod.mk.inj h
    exact .here hcheck hlower
  · rename_i t hlower
    split at h
    · rename_i d st₁ helse
      obtain ⟨-, rfl⟩ := Prod.mk.inj h
      exact .later hcheck hlower (abandons_of_lowerElse _ orelse helse)
    · cases h

/-- A condition that is given up has passed its check, and so has the statement. -/
theorem Abandons.classify (h : Abandons policy st [s] st') (level : Bool) :
    Typing.classify st.env policy level st.returns s = .direct := by
  cases h with
  | here hcheck | later hcheck => exact (Typing.classify_ifElse_eq_direct_iff _ _).2 hcheck

theorem emitStmt_of_lowerStmt_error
    (hdirect : Typing.classify st.env policy level st.returns s = .direct)
    (h : lowerStmt policy st s = (.error c, st')) : emitStmt policy level st s = st'.skip s c := by
  simp only [emitStmt, settle, hdirect, h]

/-- The statement is left out with nothing changed, or an `elif` of it is given up. -/
theorem LeftOut.cases (h : LeftOut policy level st s) : ∃ c st',
    emitStmt policy level st s = st'.skip s c ∧
      (st' = st ∧ (∀ st₁, ¬ Abandons policy st [s] st₁) ∨ Abandons policy st [s] st') := by
  rcases h with hfailure | ⟨hdirect, c, st', hlower⟩
  · refine ⟨_, st, Correspondence.settle_of_isFailure rfl hfailure _, .inl ⟨rfl, fun st₁ h => ?_⟩⟩
    rw [h.classify level] at hfailure
    cases hfailure
  · refine ⟨c, st', emitStmt_of_lowerStmt_error hdirect hlower, ?_⟩
    by_cases hif : s.conditions = []
    · refine .inl ⟨eq_of_lowerStmt_error hif hlower, fun st₁ h => ?_⟩
      cases h <;> cases hif
    · -- Only an `if` has conditions.
      cases s with
      | ifElse site e body orelse =>
        have hcheck := (Typing.classify_ifElse_eq_direct_iff _ _).1 hdirect
        exact .inr (abandons_of_lowerStmt_ifElse hcheck hlower)
      | _ => exact absurd rfl hif

theorem State.skip_inj : st'.skip s c = st.skip s c ↔ st' = st := by
  constructor
  · intro h
    obtain ⟨env, returns, records⟩ := st
    obtain ⟨env', returns', records'⟩ := st'
    simpa [State.skip] using h
  · rintro rfl
    rfl

/-- **What remains of a statement that is left out.**  A comment stands in its place, the scopes are
as before, and its record is the last.  Nothing else remains exactly if no `elif` of it is given up
in another state, which takes an `elif` with an operator without operands. -/
theorem emitStmt_of_leftOut (policy : Policy) (level : Bool) (st : State) (s : Stmt)
    (h : LeftOut policy level st s) : ∃ c,
      (emitStmt policy level st s).1 = [(SkipRecord.ofSite s.site c).comment] ∧
      (emitStmt policy level st s).2.env.frames = st.env.frames ∧
      (∃ inner, (emitStmt policy level st s).2.records =
        st.records ++ inner ++ [.ofSite s.site c]) ∧
      (emitStmt policy level st s = st.skip s c ↔
        ∀ st', Abandons policy st [s] st' → st' = st) ∧
      ((∀ e ∈ s.conditions.tail, e.hasOperands = true) →
        emitStmt policy level st s = st.skip s c) := by
  obtain ⟨c, st', hemit, hcases⟩ := h.cases
  have hsame : st.SameScope st' := by
    rcases hcases with ⟨rfl, -⟩ | habandons
    · exact .refl _
    · exact habandons.sameScope
  have hexact : emitStmt policy level st s = st.skip s c ↔
      ∀ st₁, Abandons policy st [s] st₁ → st₁ = st := by
    rw [hemit, State.skip_inj]
    rcases hcases with ⟨rfl, hnone⟩ | habandons
    · exact ⟨fun _ st₁ h₁ => absurd h₁ (hnone st₁), fun _ => rfl⟩
    · constructor
      · rintro rfl st₁ h₁
        exact h₁.unique habandons
      · exact fun hall => hall st' habandons
  obtain ⟨inner, hinner⟩ := hsame.records
  refine ⟨c, by rw [hemit]; rfl, by rw [hemit]; exact hsame.frames, ⟨inner, ?_⟩, hexact, ?_⟩
  · rw [hemit, hinner]
    rfl
  · refine fun hops => hexact.2 fun st₁ h₁ => ?_
    cases h₁ with
    | here => rfl
    | later _ _ hrest =>
      obtain ⟨e, he, hfalse⟩ := hrest.exists_mem_conditions
      rw [hops e he] at hfalse
      cases hfalse

end Lowering

namespace Source

open Compose

/-- An `if` whose own condition has no operands, with an `elif` that has a counterpart. -/
def unheaded : Stmt :=
  ifElse (boolOp .and []) [importNames ["math"]] [ifElse (bool true) [ret Option.none] []]

/-- An `if` with an `elif` whose condition has no operands.  Its first branch imports, leaves
something out, and returns. -/
def abandoned : Stmt :=
  ifElse (bool true) [importNames ["math"], assign "x" (list []), ret (some (int 1))]
    [ifElse (boolOp .and []) [pass] []]

end Source

namespace Lowering

/-- The state at the start of a function without parameters. -/
def initial : State := ⟨.empty, some .empty, []⟩

/-- Nothing remains of an `if` whose own condition turns out to have no counterpart. -/
theorem emitStmt_unheaded :
    LeftOut ⟨.template, .keep⟩ false initial Source.unheaded ∧
      (∀ e ∈ Source.unheaded.conditions.tail, e.hasOperands = true) ∧
      ∃ c, emitStmt ⟨.template, .keep⟩ false initial Source.unheaded =
        initial.skip Source.unheaded c := by
  have hleft : LeftOut ⟨.template, .keep⟩ false initial Source.unheaded :=
    .inr ⟨by decide +kernel, _, _, rfl⟩
  have hops : ∀ e ∈ Source.unheaded.conditions.tail, e.hasOperands = true := by
    intro e he
    obtain rfl := List.mem_singleton.1 he
    rfl
  obtain ⟨c, -, -, -, -, hskip⟩ := emitStmt_of_leftOut _ _ _ _ hleft
  exact ⟨hleft, hops, c, hskip hops⟩

/-- The import, the return and the record of a branch remain when the `elif` behind it is given up,
although nothing else of the branch does. -/
theorem abandoned_remains :
    LeftOut ⟨.template, .keep⟩ false initial Source.abandoned ∧
    (¬ ∃ c, emitStmt ⟨.template, .keep⟩ false initial Source.abandoned =
      initial.skip Source.abandoned c) ∧
    let result := emitStmt ⟨.template, .keep⟩ false initial Source.abandoned
    result.1.length = 1 ∧ result.2.env.globals.mathModule = true ∧
      result.2.returns = some ⟨none, some .integer⟩ ∧
      result.2.records.map (·.source) = ["x = []", Source.abandoned.site.text] := by
  refine ⟨.inr ⟨by decide +kernel, _, _, rfl⟩, ?_, by decide +kernel⟩
  rintro ⟨c, h⟩
  have hmath := congrArg (fun r => r.2.env.globals.mathModule) h
  cases hmath

end Lowering

end StaticScript
