import StaticScript.Proofs.Preservation.Statement
import StaticScript.Source.Compose

/-!
# Programs write what scripts write

A script of the core language is emitted as `main` alone.  If nothing of it is skipped and no loop
stores into the names of its own bound, the program writes what the script writes (`run_emit`).
Without limits on integers it does so on any run with rounds enough.  On the common machine it does
so too, unless an integer does not fit, and the same holds of any other machine (`settles_run`).
-/

namespace StaticScript

namespace Lowering

open Source (Stmt)

variable {policy : Policy}

/-! ### Scripts without functions -/

theorem declared?_of_isCore {globals : Globals} {s : Stmt} (h : s.isCore = true) :
    declared? globals s = none := by
  cases s <;> simp_all [declared?, Stmt.isCore]

theorem isCore_of_mem {s : Stmt} {ss : List Stmt} (h : Stmt.allCore ss = true) (hs : s ∈ ss) :
    s.isCore = true := by
  induction ss with
  | nil => cases hs
  | cons s' ss ih =>
    simp only [Stmt.allCore, Bool.and_eq_true] at h
    rcases List.mem_cons.1 hs with rfl | hs
    · exact h.1
    · exact ih h.2 hs

/-- A script of the core language has no functions. -/
theorem functions_programGlobals {body : List Stmt} (h : Stmt.allCore body = true) :
    (programGlobals policy body).functions = [] := by
  have hhoist : ∀ (ss : List Stmt) (g : Globals), (∀ s ∈ ss, s.isCore = true) →
      ss.foldl (noteFunction policy) g = g := by
    intro ss
    induction ss with
    | nil => exact fun _ _ => rfl
    | cons s ss ih =>
      intro g hss
      obtain ⟨hs, hss⟩ := List.forall_mem_cons.1 hss
      have hnote : noteFunction policy g s = g := by
        cases s <;> simp_all [noteFunction, Stmt.isCore]
      rw [List.foldl_cons, hnote]
      exact ih g hss
  -- Without definitions there are no return types to be found either.
  have hpending : body.filter (isPending (hoist policy body)) = [] := by
    rw [List.filter_eq_nil_iff]
    intro s hs
    simp [isPending, declared?_of_isCore (isCore_of_mem h hs)]
  rw [programGlobals, inferReturns, hpending, hoist, hhoist _ _ fun _ => isCore_of_mem h]
  exact functions_foldl_noteImport body .empty

/-- Without functions, `main` is a block. -/
theorem EmitsItems.block {globals : Globals} {st st' : State} {ss : List Stmt}
    {items : List Target.Item} (h : EmitsItems policy globals st ss items st')
    (hss : ∀ s ∈ ss, declared? globals s = none) (includes : List Target.Include) :
    EmitsBlock policy st ss (Target.Program.mainBody ⟨includes, items⟩) st' := by
  induction h with
  | nil => exact .nil
  | function hd _ _ =>
    rw [hss _ List.mem_cons_self] at hd
    cases hd
  | stmt _ hfirst _ ih =>
    rw [Target.Program.mainBody_stmts]
    exact .cons hfirst (ih fun s hs => hss s (List.mem_cons_of_mem _ hs))

/-! ### Whole scripts -/

theorem settles_run (M : Machine) {m : Source.Module} {rounds : Nat} {o : String}
    (hcore : Stmt.allCore m.body = true)
    (hsteady : ∀ s ∈ Stmt.nestedBlock m.body, s.steady = true)
    (hrecords : (emit policy m).records = []) (h : Script.run rounds m = some o) :
    M.Settles (fun n => M.run n (emit policy m).program) fun output => output = o := by
  obtain ⟨stop, hitems, hstop⟩ := emitsItems_emit policy m
  have hblock := hitems.block
    (fun s hs => declared?_of_isCore (isCore_of_mem hcore hs)) (emit policy m).program.includes
  have hstart : M.Related (mainStart (programGlobals policy m.body)).env.scope .start .start :=
    ⟨List.nodup_nil, rfl, by simp [Machine.Memory.start], rfl⟩
  unfold Script.run at h
  split at h
  · rename_i s hexec
    obtain rfl := Option.some.inj h
    refine (hblock.settles ⟨hcore, hsteady⟩ (functions_programGlobals hcore) (hstop ▸ hrecords)
      hstart hexec).bind ?_
    rintro ⟨signal, m'⟩ ⟨inner, hsignal, hrel⟩
    obtain rfl : signal = .next := hsignal
    have houtput : M.Yields (.ok m'.output) fun output => output = s.output :=
      Machine.yields_ok hrel.output
    exact houtput.settles
  · cases h

/-- **Emission keeps what a script writes.** -/
theorem run_emit (policy : Policy) (m : Source.Module) (hcore : Stmt.allCore m.body = true)
    (hsteady : ∀ s ∈ Stmt.nestedBlock m.body, s.steady = true)
    (hrecords : (emit policy m).records = []) {rounds : Nat} {o : String}
    (h : Script.run rounds m = some o) :
    (∃ least, ∀ n ≥ least, Machine.ideal.run n (emit policy m).program = .ok o) ∧
      ∃ least, (∀ n ≥ least, Machine.hardware.run n (emit policy m).program = .ok o) ∨
        ∀ n ≥ least, Machine.hardware.run n (emit policy m).program = .error .overflow := by
  constructor
  · obtain ⟨r, ⟨a, rfl, rfl⟩ | ⟨-, hbounded⟩, least, hrun⟩ :=
      settles_run Machine.ideal hcore hsteady hrecords h
    · exact ⟨least, hrun⟩
    · exact absurd (fun _ => rfl) hbounded
  · obtain ⟨r, ⟨a, rfl, rfl⟩ | ⟨rfl, -⟩, least, hrun⟩ :=
      settles_run Machine.hardware hcore hsteady hrecords h
    · exact ⟨least, .inl hrun⟩
    · exact ⟨least, .inr hrun⟩

end Lowering

open Source.Compose in
/-- Nested loops with every way out of a round, and quotients and remainders of both signs. -/
def Source.countdown : Source.Module :=
  script [
    assign "total" (int 0),
    assign "left" (int 40),
    assign "last" (int (-7)),
    forLoop "i" (call (name "range") [int 7, name "last", int (-4)] []) [
      whileLoop (compare (name "left") [(.gt, int 0)]) [
        augAssign "left" .sub (int 3),
        ifElse (compare (binary (name "left") .mod (int 5)) [(.eq, int 0)]) [brk] [
          ifElse (boolOp .and [compare (binary (name "left") .mod (int 2)) [(.eq, int 0)],
            unary .not (compare (name "left") [(.lt, name "i")])]) [cont] []],
        augAssign "total" .add (binary (name "left") .floorDiv (name "i"))],
      expr (call (name "print") [name "i", binary (name "total") .mod (int (-4)),
        compare (int 0) [(.lt, name "total"), (.ltE, name "left")]] [])],
    expr (call (name "print") [str "total", name "total",
      compare (name "left") [(.eq, int (-2))]] [])]

namespace Lowering

open Source (Stmt)

/-- What `Source.countdown` writes. -/
def countdownOutput : String :=
  "7 -3 True\n3 -1 False\n-1 -3 False\n-5 -3 False\ntotal 13 True\n"

theorem countdown_runs :
    (Stmt.allCore Source.countdown.body = true ∧
      (∀ s ∈ Stmt.nestedBlock Source.countdown.body, s.steady = true) ∧
      (emit .standard Source.countdown).records = [] ∧
      Script.run 20 Source.countdown = some countdownOutput) ∧
    (∃ least, ∀ n ≥ least,
      Machine.ideal.run n (emit .standard Source.countdown).program = .ok countdownOutput) ∧
    ∃ least,
      (∀ n ≥ least,
        Machine.hardware.run n (emit .standard Source.countdown).program = .ok countdownOutput) ∨
      ∀ n ≥ least,
        Machine.hardware.run n (emit .standard Source.countdown).program = .error .overflow := by
  have hcore : Stmt.allCore Source.countdown.body = true := by decide +kernel
  have hsteady : ∀ s ∈ Stmt.nestedBlock Source.countdown.body, s.steady = true := by
    decide +kernel
  have hrecords : (emit .standard Source.countdown).records = [] := by decide +kernel
  have hrun : Script.run 20 Source.countdown = some countdownOutput := by decide +kernel
  exact ⟨⟨hcore, hsteady, hrecords, hrun⟩,
    run_emit .standard Source.countdown hcore hsteady hrecords hrun⟩

example : Machine.hardware.run 20 (emit .standard Source.countdown).program =
    .ok countdownOutput := by
  decide +kernel

end Lowering

end StaticScript
