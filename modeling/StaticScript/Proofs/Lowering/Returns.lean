import StaticScript.Lowering.Program
import StaticScript.Proofs.Lowering.Origin
import StaticScript.Source.Compose

/-!
# Returns fit the return type

A `return` is accepted against what is known of the return type when it is reached, and the return
type of the function is what is known at its end.  In between it may change: a floating-point value
widens an integer, also one that is returned in a branch that is given up later.  It changes in this
direction only, so what was accepted is accepted for good (`ReturnSlot.Covers.record`).

`Accounts st ts st'` says that of a piece of the body: the return type known in `st'` covers what
that of `st` did, and all that the statements `ts` return.  Every function that lowers statements
keeps it, whether it succeeds or not (`accounts_lowerStmt`, `accounts_lowerBlock`,
`accounts_lowerElse`): a conditional that is given up has returned from none of its branches, but
what is known of the return type is not taken back.

**Main theorem** (`ret_fits_emitFunction`): every `return` of an emitted function, at any depth, is
one of a value of its return type, or of an integer if that is floating point, or one of no value if
it is `void`.
-/

namespace StaticScript

namespace StaticType

theorem assignable_iff {t u : StaticType} :
    t.assignable u = true ↔ t = u ∨ t = .integer ∧ u = .floating := by
  cases t <;> cases u <;> decide

theorem assignable_refl (t : StaticType) : t.assignable t = true := assignable_iff.2 (.inl rfl)

theorem assignable_trans {t u v : StaticType} (h : t.assignable u = true)
    (h' : u.assignable v = true) : t.assignable v = true := by
  rw [assignable_iff] at h h' ⊢
  rcases h with rfl | ⟨rfl, rfl⟩
  · exact h'
  · rcases h' with rfl | ⟨h', -⟩
    · exact .inr ⟨rfl, rfl⟩
    · cases h'

end StaticType

namespace Typing.ReturnSlot

variable {slot : ReturnSlot} {t u : StaticType}

/-- The return type, as far as it is known. -/
def known? (slot : ReturnSlot) : Option StaticType := slot.declared.or slot.observed

/-- The return type is known, and it takes values of type `t`. -/
def Covers (slot : ReturnSlot) (t : StaticType) : Prop :=
  ∃ u, slot.known? = some u ∧ t.assignable u = true

theorem Covers.assignable (h : slot.Covers t) : t.assignable slot.type = true := by
  obtain ⟨u, hu, hfits⟩ := h
  rw [known?] at hu
  rwa [type, hu]

/-- What is accepted fits the return type, which stays as it was or is widened. -/
theorem accept_eq_some (h : slot.accept t = some u) :
    t.assignable u = true ∧ ∀ v, slot.known? = some v → v.assignable u = true := by
  obtain ⟨_ | d, observed⟩ := slot
  · cases observed with
    | none =>
      obtain rfl := Option.some.inj h
      exact ⟨StaticType.assignable_refl t, by simp [known?]⟩
    | some o =>
      -- What is known here is what was returned before.
      suffices hsteps : t.assignable u = true ∧ o.assignable u = true from
        ⟨hsteps.1, fun v hv => Option.some.inj hv ▸ hsteps.2⟩
      simp only [accept] at h
      split at h
      · rename_i hfits
        obtain rfl := Option.some.inj h
        exact ⟨hfits, StaticType.assignable_refl _⟩
      · split at h
        · rename_i hwidens
          obtain rfl := Option.some.inj h
          exact ⟨StaticType.assignable_refl _, by simp [StaticType.assignable, hwidens]⟩
        · cases h
  · simp only [accept, Option.ite_none_right_eq_some, Option.some.injEq] at h
    obtain ⟨hfits, rfl⟩ := h
    exact ⟨hfits, fun v hv => Option.some.inj hv ▸ StaticType.assignable_refl _⟩

theorem known?_record (h : slot.accept t = some u) : (slot.record t).known? = some u := by
  obtain ⟨_ | d, observed⟩ := slot
  · simp [record, h, known?]
  · simp only [accept, Option.ite_none_right_eq_some, Option.some.injEq] at h
    obtain ⟨hfits, rfl⟩ := h
    simp [record, accept, hfits, known?]

theorem covers_record (h : slot.accept t = some u) : (slot.record t).Covers t :=
  ⟨u, known?_record h, (accept_eq_some h).1⟩

/-- **What was accepted is accepted for good.** -/
theorem Covers.record (h : slot.Covers u) (t : StaticType) : (slot.record t).Covers u := by
  cases haccept : slot.accept t with
  | none => simpa only [ReturnSlot.record, haccept] using h
  | some accepted =>
    obtain ⟨v, hv, hfits⟩ := h
    exact ⟨accepted, known?_record haccept,
      StaticType.assignable_trans hfits ((accept_eq_some haccept).2 v hv)⟩

end Typing.ReturnSlot

namespace Lowering

open Source (Stmt)
open Target.Stmt (nestedBlock nestedBranches nestedElse)

/-- A value of type `t` can be returned from the function at hand, for all that is known. -/
def State.Covers (st : State) (t : StaticType) : Prop :=
  ∃ slot, st.returns = some slot ∧ slot.Covers t

/-- From the state `st` to the state `st'` the statements `ts` are emitted: what can be returned in
`st` can be returned in `st'`, and so can all that they return. -/
structure Accounts (st : State) (ts : List Target.Stmt) (st' : State) : Prop where
  keeps : ∀ t, st.Covers t → st'.Covers t
  returned : ∀ v, .ret v ∈ ts → st'.Covers (v.elim .void (·.type))

/-- The statements that a result holds. -/
def produced {α : Type} (statements : α → List Target.Stmt) : Checked α → List Target.Stmt
  | .ok a => statements a
  | .error _ => []

namespace Accounts

variable {st st₁ st₂ : State} {ts us : List Target.Stmt}

/-- Statements without a `return` are emitted, and what is known of the return type stays. -/
theorem of_returns (h : st₁.returns = st.returns) (hts : ∀ v, .ret v ∉ ts) :
    Accounts st ts st₁ where
  keeps t ht := by rwa [State.Covers, h]
  returned v hv := absurd hv (hts v)

theorem refl (st : State) : Accounts st [] st := of_returns rfl (by simp)

theorem append (h : Accounts st ts st₁) (h' : Accounts st₁ us st₂) :
    Accounts st (ts ++ us) st₂ where
  keeps t ht := h'.keeps t (h.keeps t ht)
  returned v hv := by
    rcases List.mem_append.1 hv with hv | hv
    · exact h'.keeps _ (h.returned v hv)
    · exact h'.returned v hv

/-- Fewer statements are accounted for, too. -/
theorem mono (h : Accounts st ts st₁) (hus : us ⊆ ts) : Accounts st us st₁ :=
  ⟨h.keeps, fun v hv => h.returned v (hus hv)⟩

/-- A statement that is no `return` and holds other statements. -/
theorem cons {s : Target.Stmt} (h : Accounts st ts st₁) (hs : ∀ v, s ≠ .ret v) :
    Accounts st (s :: ts) st₁ where
  keeps := h.keeps
  returned v hv := by
    rcases List.mem_cons.1 hv with heq | hv
    · exact absurd heq.symm (hs v)
    · exact h.returned v hv

/-- The scope of a block is entered before it and left after it; the return type is of the function
as a whole. -/
theorem leave {inner : State} (h : Accounts inner ts st₁) (hinner : inner.returns = st.returns) :
    Accounts st ts st₁.pop where
  keeps t ht := h.keeps t (by rwa [State.Covers, hinner])
  returned := h.returned

end Accounts

variable {policy : Policy} {st : State}

/-! ### Statements without blocks -/

theorem accounts_assign (x : String) (t : Target.Expr) :
    Accounts st (produced nestedBlock (assign st x t).1) (assign st x t).2 := by
  unfold assign
  repeat' split
  all_goals exact .of_returns rfl (by simp [produced, nestedBlock, Target.Stmt.nested])

theorem accounts_returnStmt (value : Option Source.Expr) :
    Accounts st (produced nestedBlock (returnStmt policy st value).1)
      (returnStmt policy st value).2 := by
  unfold returnStmt
  split
  · exact .refl st
  · rename_i v _
    dsimp only
    split
    · exact .refl st
    · rename_i slot hslot
      split
      · exact .refl st
      · rename_i accepted haccept
        -- What fitted before fits what is recorded now, and so does the new value.
        refine ⟨?_, ?_⟩
        · rintro t ⟨slot', hslot', hcovers⟩
          obtain rfl := Option.some.inj (hslot.symm.trans hslot')
          exact ⟨_, rfl, hcovers.record _⟩
        · intro w hw
          obtain rfl : w = v := by simpa [produced, nestedBlock, Target.Stmt.nested] using hw
          exact ⟨_, rfl, Typing.ReturnSlot.covers_record haccept⟩

theorem accounts_expr (site : Source.Site) (e : Source.Expr) :
    Accounts st (produced nestedBlock (lowerStmt policy st (.expr site e)).1)
      (lowerStmt policy st (.expr site e)).2 := by
  simp only [lowerStmt]
  refine .of_returns rfl fun v hv => ?_
  cases h : exprStmt policy st.env e with
  | error c => simp [h, Except.map, produced] at hv
  | ok s =>
    simp only [h, Except.map, produced, Target.Stmt.nestedBlock_singleton] at hv
    rcases exprStmt_eq_ok h with ⟨values, rfl⟩ | ⟨t, rfl⟩
    · simp [Target.Stmt.nested] at hv
    · simp [Target.Stmt.nested] at hv

/-- What stands for a statement is its counterpart, or a comment. -/
theorem accounts_emitStmt {s : Stmt} (level : Bool)
    (h : Accounts st (produced nestedBlock (lowerStmt policy st s).1) (lowerStmt policy st s).2) :
    Accounts st (nestedBlock (emitStmt policy level st s).1) (emitStmt policy level st s).2 := by
  have hskip (st' : State) (c : Category) :
      Accounts st' (nestedBlock (st'.skip s c).1) (st'.skip s c).2 :=
    .of_returns rfl (by simp [State.skip, SkipRecord.comment, Target.Stmt.nested])
  unfold emitStmt settle
  split
  · split
    · rename_i hlowered
      simpa only [hlowered, produced] using h
    · rename_i c st' hlowered
      rw [show lowerStmt policy st s = (.error c, st') from hlowered] at h
      exact h.append (hskip st' c)
  · exact .of_returns rfl (by simp [Target.Stmt.nested])
  · exact hskip st _

/-! ### Blocks -/

mutual

theorem accounts_lowerStmt (st : State) : (s : Stmt) →
    Accounts st (produced nestedBlock (lowerStmt policy st s).1) (lowerStmt policy st s).2
  | .expr site e => accounts_expr site e
  | .assign site [target] value => by
    simp only [lowerStmt]
    split
    · exact .refl st
    · split
      · exact .refl st
      · exact accounts_assign _ _
  | .assign site [] value => by simpa only [lowerStmt] using .refl st
  | .assign site (_ :: _ :: _) value => by simpa only [lowerStmt] using .refl st
  | .augAssign site target op value => by
    simp only [lowerStmt]
    split
    · exact .refl st
    · split
      · exact .refl st
      · exact accounts_assign _ _
  | .ifElse site c body orelse => by
    have hbody : Accounts st _ _ := (accounts_lowerBlock st.push body).leave rfl
    have horelse := accounts_lowerElse (lowerBlock policy st.push body).2.pop orelse
    have hboth := hbody.append horelse
    cases hc : lower st.env policy .condition c with
    | error d => simpa only [lowerStmt, hc] using .refl st
    | ok t =>
      rcases h : lowerElse policy (lowerBlock policy st.push body).2.pop orelse with
        ⟨d | ⟨branches, last⟩, st₂⟩
      · -- Nothing of it is emitted, but the types that its branches return stay recorded.
        simp only [lowerStmt, hc, h]
        rw [h] at hboth
        exact hboth.mono (by simp [produced])
      · simp only [lowerStmt, hc, h, produced, Target.Stmt.nestedBlock_singleton]
        rw [h] at hboth
        rw [Target.Stmt.nested, nestedBranches, List.append_assoc]
        exact hboth.cons (by simp)
  | .whileLoop site c body orelse => by
    have hbody : Accounts st _ _ := (accounts_lowerBlock st.push body).leave rfl
    cases hc : lower st.env policy .condition c with
    | error d => simpa only [lowerStmt, hc] using .refl st
    | ok t =>
      simp only [lowerStmt, hc, produced, Target.Stmt.nestedBlock_singleton]
      rw [Target.Stmt.nested]
      exact hbody.cons (by simp)
  | .forLoop site target iter body orelse => by
    cases hhead : loopHead policy st.env target iter with
    | error d => simpa only [lowerStmt, hhead] using .refl st
    | ok head =>
      rcases hbind : st.env.push.bind head.counter .integer with ⟨_ | _, env⟩
      · have hbody : Accounts st _ _ := (accounts_lowerBlock { st with env } body).leave rfl
        simp only [lowerStmt, hhead, hbind, produced, Target.Stmt.nestedBlock_singleton]
        rw [Target.Stmt.nested]
        exact hbody.cons (by simp)
      · simpa only [lowerStmt, hhead, hbind] using .refl st
  | .ret site value => by simpa only [lowerStmt] using accounts_returnStmt value
  | .brk _ | .cont _ | .pass _ | .importNames .. | .importFrom .. => by
    simp only [lowerStmt]
    exact .of_returns rfl (by simp [produced, nestedBlock, Target.Stmt.nested])
  | .functionDef .. | .docString .. | .comment .. | .other .. => by
    simpa only [lowerStmt] using .refl st

theorem accounts_lowerBlock (st : State) : (ss : List Stmt) →
    Accounts st (nestedBlock (lowerBlock policy st ss).1) (lowerBlock policy st ss).2
  | [] => .refl st
  | s :: ss => by
    rw [lowerBlock, Target.Stmt.nestedBlock_append]
    exact (accounts_emitStmt false (accounts_lowerStmt st s)).append (accounts_lowerBlock _ ss)

theorem accounts_lowerElse (st : State) : (ss : List Stmt) →
    Accounts st
      (produced (fun b => nestedBranches b.1 ++ nestedElse b.2) (lowerElse policy st ss).1)
      (lowerElse policy st ss).2
  | [] => by simpa only [lowerElse] using .refl st
  | s :: ss => by
    have hfirst := accounts_emitStmt false (accounts_lowerStmt st.push s)
    have hrest := accounts_lowerBlock (emitStmt policy false st.push s).2 ss
    have hblock : Accounts st _ _ := (hfirst.append hrest).leave rfl
    rw [← Target.Stmt.nestedBlock_append] at hblock
    cases s with
    | ifElse site c body orelse =>
      cases ss with
      | nil =>
        have hbody : Accounts st _ _ := (accounts_lowerBlock st.push body).leave rfl
        have horelse := accounts_lowerElse (lowerBlock policy st.push body).2.pop orelse
        have hboth := hbody.append horelse
        cases hcheck : (Typing.checkCondition st.env policy c).isOk with
        | false =>
          simp only [lowerElse, hcheck]
          exact hblock
        | true =>
          cases hc : lower st.env policy .condition c with
          | error d => simpa only [lowerElse, hcheck, hc] using .refl st
          | ok t =>
            rcases h : lowerElse policy (lowerBlock policy st.push body).2.pop orelse with
              ⟨d | ⟨branches, last⟩, st₂⟩
            · -- The conditional as a whole is given up, as above.
              simp only [lowerElse, hcheck, hc, h]
              rw [h] at hboth
              exact hboth.mono (by simp [produced])
            · simp only [lowerElse, hcheck, if_true, hc, h, produced, nestedBranches,
                List.append_assoc]
              rw [h] at hboth
              exact hboth
      | cons s ss =>
        simp only [lowerElse]
        exact hblock
    | _ =>
      simp only [lowerElse]
      exact hblock

end

/-! ### Functions -/

/-- **Every `return` fits the return type** of the function that it stands in. -/
theorem ret_fits_emitFunction (policy : Policy) (globals : Globals) (records : List SkipRecord)
    (s : Signature) (body : List Stmt) (v : Option Target.Expr) :
    let f := (emitFunction policy globals records s body).1
    .ret v ∈ nestedBlock f.body →
      v = none ∧ f.returns = .void ∨
      ∃ e, v = some e ∧ (e.type = f.returns ∨ e.type = .integer ∧ f.returns = .floating) := by
  intro f hv
  let start : State := ⟨functionEnv globals s, some (returnSlot s), records⟩
  have hbody : Accounts start (nestedBlock f.body) (lowerBlock policy start body).2 :=
    accounts_lowerBlock start body
  obtain ⟨slot, hslot, hcovers⟩ := hbody.returned v hv
  have hreturns : f.returns = slot.type := by
    change (lowerBlock policy start body).2.returns.elim _ _ = _
    rw [hslot, Option.elim_some]
  have hfits := StaticType.assignable_iff.1 hcovers.assignable
  rw [← hreturns] at hfits
  cases v with
  | some e => exact .inr ⟨e, rfl, hfits⟩
  | none =>
    rcases hfits with hvoid | ⟨hvoid, -⟩
    · exact .inl ⟨rfl, hvoid.symm⟩
    · cases hvoid

end Lowering

open Source.Compose in
/-- An integer is returned in a branch, then a quotient, and then a string. -/
def Source.mixed : List Source.Stmt :=
  [ifElse (name "n") [ret (some (name "n"))] [], ret (some (binary (name "n") .div (int 2))),
    ret (some (str "n"))]

/-- The quotient widens the return type, and the integer that was accepted before fits it. -/
theorem Lowering.integer_fits_mixed :
    let s : Signature := ⟨"f", 0, [⟨"n", .concrete .integer, none⟩], .void, false⟩
    let f := (emitFunction ⟨.template, .keep⟩ .empty [] s Source.mixed).1
    f.returns = .floating ∧ .ret (some (.var "n" .integer)) ∈ Target.Stmt.nestedBlock f.body ∧
      ∃ e, some (Target.Expr.var "n" .integer) = some e ∧
        (e.type = f.returns ∨ e.type = .integer ∧ f.returns = .floating) := by
  intro s f
  have hret : .ret (some (.var "n" .integer)) ∈ Target.Stmt.nestedBlock f.body :=
    List.mem_of_getElem? (i := 1) rfl
  refine ⟨by decide +kernel, hret, ?_⟩
  exact (ret_fits_emitFunction _ _ _ _ _ _ hret).resolve_left fun hnone => by cases hnone.1

end StaticScript
