import StaticScript.Proofs.Lowering.Origin
import StaticScript.Proofs.Lowering.Program
import StaticScript.Source.Compose

/-!
# Comments and records

What is left out of a program is said twice: by a comment in its place and by a record.  The two
are made apart from each other, the comments as part of the statements that are handed back and the
records in the state that goes along.  They tell the same story: going through the program from its
first item to its last, into every block, one meets **the constructs of the records, one by one and
in order** (`skips_emit`).

This takes that a statement is never given up once something in it has been emitted, because the
comments inside would be lost and the records would stay.  An `else if` whose condition is an
operator without operands is the one way to that, so the operators of the script have operands.
-/

namespace StaticScript

namespace Target

/-- What a statement says has been left out in its place: the reason, and the text. -/
def Stmt.skip? : Stmt → Option (Reason × String)
  | .comment (.skipped reason source) => some (reason, source)
  | _ => none

/-- The statements of an item. -/
def Item.stmts : Item → List Stmt
  | .function f => f.body
  | .stmt s => [s]

/-- What the comments of a program say has been left out, from the first to the last; each statement
comes before those nested in it. -/
def Program.skips (p : Program) : List (Reason × String) :=
  (p.items.flatMap fun i => Stmt.nestedBlock i.stmts).filterMap Stmt.skip?

theorem flatMap_stmts (b : List Stmt) :
    ((b.map Item.stmt).flatMap fun i => Stmt.nestedBlock i.stmts) = Stmt.nestedBlock b := by
  induction b with
  | nil => rfl
  | cons s b ih =>
    rw [List.map_cons, List.flatMap_cons, ih, Item.stmts, Stmt.nestedBlock_singleton]
    rfl

end Target

/-- What a record says has been left out. -/
def SkipRecord.skip (r : SkipRecord) : Reason × String := (r.reason, r.source)

@[simp] theorem SkipRecord.skip?_comment (r : SkipRecord) : r.comment.skip? = some r.skip := rfl

namespace Lowering

open Source (Stmt)
open Target.Stmt (nestedBlock nestedBranches nestedElse skip?)

variable {policy : Policy}

/-- The records that have been added from one state to another are those of the comments in the
statements `ts`. -/
def Tells (st st' : State) (ts : List Target.Stmt) : Prop :=
  st'.records.map SkipRecord.skip = st.records.map SkipRecord.skip ++ ts.filterMap skip?

namespace Tells

variable {st st₁ st₂ : State} {ts us : List Target.Stmt}

theorem of_records_eq (h : st₁.records = st.records) (hts : ts.filterMap skip? = []) :
    Tells st st₁ ts := by
  rw [Tells, h, hts, List.append_nil]

theorem append (h : Tells st st₁ ts) (h' : Tells st₁ st₂ us) : Tells st st₂ (ts ++ us) := by
  rw [Tells, List.filterMap_append, ← List.append_assoc, ← h, h']

/-- A statement that is no such comment itself tells what the statements in it do. -/
theorem cons {t : Target.Stmt} (h : Tells st st₁ ts) (ht : skip? t = none) :
    Tells st st₁ (t :: ts) := by
  rw [Tells, List.filterMap_cons_none ht, h]

end Tells

mutual

/-- **The records of a statement are those of the comments in what it becomes.** -/
theorem Emits.tells {st st' : State} {s : Stmt} {b : Block} :
    Emits policy st s b st' → s.hasOperands = true → Tells st st' (nestedBlock b)
  | .skipped r _ _ hatomic, hops => by
    -- With operands everywhere, nothing was recorded before the statement was given up.
    rw [(hatomic hops).2, Tells, List.map_append, Target.Stmt.nestedBlock_singleton]
    rfl
  | .doc hdoc, _ => by
    refine .of_records_eq rfl ?_
    cases s <;> simp [Stmt.isDoc] at hdoc <;> rfl
  | .ifElse _ _ hbody horelse, hops => by
    rw [Stmt.hasOperands_ifElse] at hops
    have hrest := (hbody.tells hops.2.1).append (horelse.tells hops.2.2)
    rw [Target.Stmt.nestedBlock_singleton, Target.Stmt.nested, nestedBranches, List.append_assoc]
    exact hrest.cons rfl
  | .whileLoop _ _ hbody, hops => by
    rw [Stmt.hasOperands_whileLoop] at hops
    rw [Target.Stmt.nestedBlock_singleton, Target.Stmt.nested]
    exact (hbody.tells hops.2.1).cons rfl
  | .forLoop _ hbody, hops => by
    rw [Stmt.hasOperands_forLoop] at hops
    rw [Target.Stmt.nestedBlock_singleton, Target.Stmt.nested]
    exact (hbody.tells hops.2.1).cons rfl
  | .print _ _ _, _ | .call _ _, _ | .declare _ _ _ _ _, _ | .store _ _ _ _, _ | .ret _ _, _
  | .brk, _ | .cont, _ | .pass, _ | .imports _ _, _ => .of_records_eq rfl rfl

theorem EmitsBlock.tells {st st' : State} {ss : List Stmt} {b : Block} :
    EmitsBlock policy st ss b st' → (∀ s ∈ ss, s.hasOperands = true) →
      Tells st st' (nestedBlock b)
  | .nil, _ => .of_records_eq rfl rfl
  | .cons hfirst hrest, hops => by
    rw [List.forall_mem_cons] at hops
    rw [Target.Stmt.nestedBlock_append]
    exact (hfirst.tells hops.1).append (hrest.tells hops.2)

theorem EmitsElse.tells {st st' : State} {ss : List Stmt}
    {branches : List (Target.Expr × Block)} {last : Option Block} :
    EmitsElse policy st ss branches last st' → (∀ s ∈ ss, s.hasOperands = true) →
      Tells st st' (nestedBranches branches ++ nestedElse last)
  | .none, _ => .of_records_eq rfl rfl
  | .elseIf _ _ hbody horelse, hops => by
    rw [List.forall_mem_singleton, Stmt.hasOperands_ifElse] at hops
    rw [nestedBranches, List.append_assoc]
    exact (hbody.tells hops.2.1).append (horelse.tells hops.2.2)
  | .block hbody, hops => hbody.tells hops

end

theorem EmitsItems.tells {globals : Globals} {st st' : State} {ss : List Stmt}
    {items : List Target.Item} (h : EmitsItems policy globals st ss items st')
    (hops : ∀ s ∈ ss, s.hasOperands = true) :
    Tells st st' (items.flatMap fun i => nestedBlock i.stmts) := by
  induction h with
  | nil => exact .of_records_eq rfl rfl
  | @function st _ d ss body s _ hdecl _ ih =>
    obtain ⟨-, _, _, _, _, _, rfl⟩ := declared?_eq_some hdecl
    obtain ⟨stop, hbody, -, hstop⟩ := emits_emitFunction policy globals st.records s body
    rw [List.forall_mem_cons] at hops
    have hfunction := hbody.tells (Stmt.hasOperands_functionDef hops.1)
    rw [Tells, ← hstop] at hfunction
    rw [List.flatMap_cons]
    exact Tells.append hfunction (ih hops.2)
  | stmt hdecl hfirst hrest ih =>
    rw [List.forall_mem_cons] at hops
    rw [List.flatMap_append, Target.flatMap_stmts]
    exact (hfirst.tells hops.1).append (ih hops.2)

/-- **Nothing is left out in silence, and nothing is reported that is not left out**: the comments
of a program and the records tell of the same constructs in the same order. -/
theorem skips_emit (policy : Policy) (m : Source.Module) (hops : m.hasOperands = true) :
    (emit policy m).program.skips = (emit policy m).records.map fun r => (r.reason, r.source) := by
  obtain ⟨stop, hitems, hrecords⟩ := emitsItems_emit policy m
  have htells := hitems.tells (List.all_eq_true.1 hops)
  rw [hrecords]
  exact htells.symm

end Lowering

open Source.Compose in
/-- A script that loses a statement in each of three branches, and one of `main`. -/
def Source.lossy : Source.Module :=
  script
    [functionDef "f" [⟨"x", some "int", Option.none, .positional⟩] Option.none
      [ifElse (boolOp .and [name "x"])
        [assign "a" (list [int 1])]
        [ifElse (compare (name "x") [(.gt, int 2)])
          [expr (name "x")]
          [chained [name "a", name "b"] (int 1), ret (some (name "x"))]]],
     importNames ["os"],
     expr (call (name "print") [call (name "f") [int 3] []] [])]

/-- What is lost is told in the order of the script. -/
theorem Lowering.lossy_skips :
    Source.lossy.hasOperands = true ∧
      (emit ⟨.template, .keep⟩ Source.lossy).program.skips =
        (emit ⟨.template, .keep⟩ Source.lossy).records.map (fun r => (r.reason, r.source)) ∧
      (emit ⟨.template, .keep⟩ Source.lossy).records.map (·.source) =
        ["a = [1]", "x", "a = b = 1", "import os"] :=
  have hops : Source.lossy.hasOperands = true := by decide +kernel
  ⟨hops, skips_emit _ _ hops, by decide +kernel⟩

end StaticScript
