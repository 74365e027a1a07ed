import StaticScript.Proofs.Lowering.Origin
import StaticScript.Proofs.Lowering.Program
import StaticScript.Proofs.Semantics.Machine
import StaticScript.Source.Compose

/-!
# Counters of counting loops

A counting loop owns its counter: nothing in its body assigns to it, declares it, or counts in it,
so only the update at the end of a round changes it (`counter_owned`).  What is refused is a loop
whose body may store into the name of its counter, at any depth; so it is enough that a statement
sets no variable but those that the statement it was emitted for may store into
(`Emits.stores_of_sets`).

For a run this means that a round leaves the value of the counter as it was.  A run of a block
declares variables and forgets them again, and one that is declared hides others of its name.
`Memory.Spares` says that all variables declared since have other names and that the value is the
same, and every statement that does not set the variable keeps it (`ensures_execBlock`).
-/

namespace StaticScript

namespace Target

/-- The statement itself declares the variable, assigns to it, or counts in it. -/
def Stmt.sets (name : String) : Stmt → Bool
  | .decl x _ _ | .assign x _ | .forLoop x _ _ _ _ => x == name
  | _ => false

/-- All statements of a program at any depth, those of its functions first. -/
def Program.stmts (p : Program) : List Stmt :=
  p.functions.flatMap (fun f => Stmt.nestedBlock f.body) ++ Stmt.nestedBlock p.mainBody

end Target

/-! ### Runs that spare a variable -/

namespace Machine

open Target.Stmt (nestedBlock nestedBranches nestedElse)

/-- If the run ends without a fault, its result has the property. -/
def Ensures {α : Type} (r : Except Fault α) (P : α → Prop) : Prop := ∀ a, r = .ok a → P a

section

variable {α β : Type} {P : α → Prop} {Q : β → Prop}

theorem ensures_ok {a : α} (h : P a) : Ensures (.ok a) P := by
  intro b hb
  obtain rfl := Except.ok.inj hb
  exact h

theorem ensures_error (fault : Fault) : Ensures (.error fault) P := by
  intro a ha
  cases ha

theorem Ensures.bind {r : Except Fault α} {f : α → Except Fault β} (h : Ensures r P)
    (hf : ∀ a, P a → Ensures (f a) Q) : Ensures (r >>= f) Q := by
  cases r with
  | error fault => exact ensures_error fault
  | ok a => exact hf a (h a rfl)

/-- What a value is does not matter for what follows. -/
theorem ensures_bind {r : Except Fault α} {f : α → Except Fault β} (hf : ∀ a, Ensures (f a) Q) :
    Ensures (r >>= f) Q :=
  Ensures.bind (P := fun _ => True) (fun _ _ => trivial) fun a _ => hf a

end

/-- The variable has kept its value, and no variable of its name has been declared. -/
structure Memory.Spares (x : String) (m m' : Memory) : Prop where
  names : ∃ extra, x ∉ extra ∧ m'.cells.map Cell.name = extra ++ m.cells.map Cell.name
  value : load m'.cells x = load m.cells x

theorem load_cons_of_ne {c : Cell} {x : String} (h : c.name ≠ x) (cells : List Cell) :
    load (c :: cells) x = load cells x := by
  simp [load, h]

theorem load_storeCell {x y : String} (hne : y ≠ x) (v : Value) (cells : List Cell) :
    load (storeCell y v cells) x = load cells x := by
  induction cells with
  | nil => rfl
  | cons c cells ih =>
    rw [storeCell]
    split
    · -- The cell that is changed is not the one that is looked up.
      rename_i hc
      have hcx : c.name ≠ x := hc ▸ hne
      simp [load, hcx]
    · simp only [load, List.find?_cons] at ih ⊢
      split
      · rfl
      · exact ih

theorem load_drop {x : String} {n : Nat} {cells : List Cell}
    (h : x ∉ (cells.take n).map Cell.name) : load (cells.drop n) x = load cells x := by
  induction cells generalizing n with
  | nil => simp
  | cons c cells ih =>
    cases n with
    | zero => rfl
    | succ n =>
      simp only [List.take_succ_cons, List.map_cons, List.mem_cons, not_or] at h
      rw [List.drop_succ_cons, ih h.2, load_cons_of_ne (Ne.symm h.1)]

variable {x : String} {m m₁ m₂ : Memory}

namespace Memory.Spares

theorem refl (x : String) (m : Memory) : m.Spares x m := ⟨⟨[], by simp, rfl⟩, rfl⟩

theorem trans (h : m.Spares x m₁) (h' : m₁.Spares x m₂) : m.Spares x m₂ := by
  obtain ⟨extra, hx, hnames⟩ := h.names
  obtain ⟨extra', hx', hnames'⟩ := h'.names
  refine ⟨⟨extra' ++ extra, ?_, ?_⟩, h'.value.trans h.value⟩
  · rw [List.mem_append, not_or]
    exact ⟨hx', hx⟩
  · rw [hnames', hnames, List.append_assoc]

theorem declare {y : String} (hne : y ≠ x) (t : StaticType) (v : Value) :
    m.Spares x (m.declare y t v) := by
  refine ⟨⟨[y], by simpa using Ne.symm hne, rfl⟩, ?_⟩
  simp [Memory.declare, load, hne]

theorem storeCell {y : String} (hne : y ≠ x) (v : Value) :
    m.Spares x { m with cells := Machine.storeCell y v m.cells } :=
  ⟨⟨[], by simp, map_storeCell (fun _ _ => rfl) y v m.cells⟩, load_storeCell hne v m.cells⟩

/-- The variables of a block are forgotten, and none of them has the name. -/
theorem leave (h : m.Spares x m₁) : m.Spares x (m₁.leave m.cells.length) := by
  obtain ⟨extra, hx, hnames⟩ := h.names
  have hlength : m₁.cells.length = extra.length + m.cells.length := by
    simpa using congrArg List.length hnames
  have hdrop : m₁.cells.length - m.cells.length = extra.length := by omega
  have htake : (m₁.cells.take extra.length).map Cell.name = extra := by
    rw [List.map_take, hnames, List.take_left]
  refine ⟨⟨[], by simp, ?_⟩, ?_⟩
  · rw [Memory.leave, hdrop, List.map_drop, hnames, List.drop_left]
    rfl
  · rw [Memory.leave, hdrop, load_drop (by rwa [htake]), h.value]

end Memory.Spares

/-- A loop spares a variable if its rounds and what follows them do. -/
theorem ensures_loop {test : Memory → Except Fault Bool}
    {body : Memory → Except Fault (Signal × Memory)} {after : Memory → Except Fault Memory}
    (hbody : ∀ m, Ensures (body m) fun r => m.Spares x r.2)
    (hafter : ∀ m, Ensures (after m) fun m' => m.Spares x m') (rounds : Nat) (m : Memory) :
    Ensures (loop test body after rounds m) fun m' => m.Spares x m' := by
  induction rounds generalizing m with
  | zero => exact ensures_error _
  | succ rounds ih =>
    refine ensures_bind fun b => ?_
    cases b with
    | false => exact ensures_ok (.refl x m)
    | true =>
      refine (hbody m).bind ?_
      rintro ⟨signal, m₁⟩ h
      have hnext : Ensures (after m₁ >>= loop test body after rounds) fun m' => m.Spares x m' :=
        (hafter m₁).bind fun m₂ h₂ m₃ h₃ => (h.trans h₂).trans (ih m₂ m₃ h₃)
      cases signal with
      | brk => exact ensures_ok h
      | next | cont => exact hnext

theorem ensures_inScope {body : Memory → Except Fault (Signal × Memory)}
    (hbody : Ensures (body m) fun r => m.Spares x r.2) :
    Ensures (inScope body m) fun r => m.Spares x r.2 :=
  hbody.bind fun _ h => ensures_ok h.leave

section

variable {M : Machine} {rounds : Nat}

theorem ensures_assign {y : String} (hne : y ≠ x) (e : Target.Expr) (m : Memory) :
    Ensures (M.assign y e m) fun m' => m.Spares x m' := by
  refine ensures_bind fun v => ?_
  split
  · exact ensures_bind fun w => ensures_ok (.storeCell hne w)
  · exact ensures_error _

mutual

/-- **A variable that a statement does not set keeps its value.** -/
theorem ensures_exec (m : Memory) : (s : Target.Stmt) → (∀ t ∈ s.nested, t.sets x = false) →
    Ensures (M.exec rounds m s) fun r => m.Spares x r.2
  | .decl y t e, h => by
    have hne : y ≠ x := by simpa [Target.Stmt.sets] using h _ (Target.Stmt.mem_nested_self _)
    simp only [exec]
    exact ensures_bind fun v => ensures_bind fun w => ensures_ok (.declare hne t w)
  | .assign y e, h => by
    have hne : y ≠ x := by simpa [Target.Stmt.sets] using h _ (Target.Stmt.mem_nested_self _)
    simp only [exec]
    exact (ensures_assign hne e m).bind fun m' h' => ensures_ok h'
  | .expr e, _ => by
    simp only [exec]
    exact ensures_bind fun v => ensures_ok (.refl x m)
  | .print es, _ => by
    simp only [exec]
    exact ensures_bind fun text => ensures_ok ⟨⟨[], by simp, rfl⟩, rfl⟩
  | .ifElse branches orelse, h => by
    simp only [exec]
    refine ensures_execBranches m branches (fun t ht => h t ?_)
      (ensures_execElse m orelse fun t ht => h t ?_)
    · simp [Target.Stmt.nested, ht]
    · simp [Target.Stmt.nested, ht]
  | .whileLoop c body, h => by
    have hbody (m : Memory) : Ensures (inScope (fun m => M.execBlock rounds m body) m) _ :=
      ensures_inScope (ensures_execBlock m body fun t ht => h t (by simp [Target.Stmt.nested, ht]))
    simp only [exec]
    exact (ensures_loop hbody (fun m => ensures_ok (.refl x m)) rounds m).bind
      fun m' h' => ensures_ok h'
  | .forLoop y start stop step body, h => by
    have hne : y ≠ x := by simpa [Target.Stmt.sets] using h _ (Target.Stmt.mem_nested_self _)
    have hbody (m : Memory) : Ensures (inScope (fun m => M.execBlock rounds m body) m) _ :=
      ensures_inScope (ensures_execBlock m body fun t ht => h t (by simp [Target.Stmt.nested, ht]))
    simp only [exec]
    refine ensures_bind fun v => ensures_bind fun w => ?_
    -- The counter of the inner loop is one more variable that is forgotten behind it.
    refine (ensures_loop hbody (ensures_assign hne _) rounds _).bind fun m' h' => ?_
    exact ensures_ok (Memory.Spares.trans (.declare hne _ w) h').leave
  | .brk, _ | .cont, _ | .comment _, _ => by
    simp only [exec]
    exact ensures_ok (.refl x m)
  | .ret _, _ => by
    simp only [exec]
    exact ensures_error _

theorem ensures_execBlock (m : Memory) : (ss : List Target.Stmt) →
    (∀ t ∈ nestedBlock ss, t.sets x = false) →
    Ensures (M.execBlock rounds m ss) fun r => m.Spares x r.2
  | [], _ => by
    simp only [execBlock]
    exact ensures_ok (.refl x m)
  | s :: ss, h => by
    simp only [nestedBlock, List.forall_mem_append] at h
    simp only [execBlock]
    refine (ensures_exec m s h.1).bind ?_
    rintro ⟨signal, m₁⟩ h₁
    cases signal with
    | next => exact fun r hr => h₁.trans (ensures_execBlock m₁ ss h.2 r hr)
    | brk | cont => exact ensures_ok h₁

theorem ensures_execBranches {otherwise : Except Fault (Signal × Memory)} (m : Memory) :
    (branches : List (Target.Expr × List Target.Stmt)) →
    (∀ t ∈ nestedBranches branches, t.sets x = false) →
    Ensures otherwise (fun r => m.Spares x r.2) →
    Ensures (M.execBranches rounds m otherwise branches) fun r => m.Spares x r.2
  | [], _, hlast => by simpa only [execBranches] using hlast
  | (c, body) :: branches, h, hlast => by
    simp only [nestedBranches, List.forall_mem_append] at h
    simp only [execBranches]
    have hbody : Ensures (inScope (fun m => M.execBlock rounds m body) m) _ :=
      ensures_inScope (ensures_execBlock m body h.1)
    refine ensures_bind fun b => ?_
    cases b with
    | true => exact hbody
    | false => exact ensures_execBranches m branches h.2 hlast

theorem ensures_execElse (m : Memory) : (orelse : Option (List Target.Stmt)) →
    (∀ t ∈ nestedElse orelse, t.sets x = false) →
    Ensures (M.execElse rounds m orelse) fun r => m.Spares x r.2
  | none, _ => by
    simp only [execElse]
    exact ensures_ok (.refl x m)
  | some body, h => by
    simp only [execElse]
    exact ensures_inScope (ensures_execBlock m body h)

end

end

end Machine

/-! ### Counters of emitted loops -/

namespace Lowering

open Source (Stmt)
open Target.Stmt (nestedBlock)

variable {policy : Policy}

theorem stores_of_asName {target iter : Source.Expr} {site : Source.Site} {body orelse : List Stmt}
    {x : String} (h : target.asName = some x) :
    (Stmt.forLoop site target iter body orelse).stores x = true := by
  simp [Stmt.stores, Source.Expr.mentions_iff.2 (.inl h)]

theorem stores_of_binding? {s : Stmt} {x : String} {e : Source.Expr}
    (h : binding? s = some (x, e)) : s.stores x = true := by
  rcases exists_of_binding? h with ⟨site, target, hx, rfl⟩ | ⟨site, target, op, value, hx, rfl, -⟩
  · simp [Stmt.stores, Source.Expr.mentions_iff.2 (.inl hx)]
  · simp [Stmt.stores, Source.Expr.mentions_iff.2 (.inl hx)]

/-- What a statement is lowered to sets no variable but those that the statement may store into. -/
theorem Emits.stores_of_sets {st st' : State} {s : Stmt} {b : Block} {t : Target.Stmt} {x : String}
    (h : Emits policy st s b st') (ht : t ∈ b) (hsets : t.sets x = true) : s.stores x = true := by
  cases h with
  | declare hs | store hs =>
    obtain rfl := List.mem_singleton.1 ht
    obtain rfl := eq_of_beq hsets
    exact stores_of_binding? hs
  | forLoop hhead =>
    obtain rfl := List.mem_singleton.1 ht
    obtain rfl := eq_of_beq hsets
    exact stores_of_asName hhead.target
  | pass | imports => cases ht
  | _ =>
    obtain rfl := List.mem_singleton.1 ht
    cases hsets

/-- Nothing in the body of a loop sets its counter. -/
theorem Counts.sets_eq_false {st st₁ : State} {target iter : Source.Expr} {body : List Stmt}
    {r : Typing.Range} {head : LoopHead} {b : Block}
    (hhead : Counts policy st.env target iter body r head)
    (hbody : EmitsBlock policy (st.push.declare head.counter .integer) body b st₁) :
    ∀ t ∈ nestedBlock b, t.sets head.counter = false := by
  intro t ht
  obtain ⟨s, hs, st₂, b₂, st₃, -, hemits, hmem⟩ := hbody.origin t ht
  obtain ⟨d, hd, hs⟩ := Stmt.exists_of_mem_nestedBlock hs
  have hassigns := hhead.unassigned d hd
  simp only [Stmt.assignsTo, List.any_eq_false] at hassigns
  exact Bool.eq_false_iff.2 fun hsets => hassigns s hs (hemits.stores_of_sets hmem hsets)

/-- Every statement of a program has been emitted for a statement of the script. -/
theorem EmitsItems.exists_emits {globals : Globals} {st st' : State} {ss : List Stmt}
    {items : List Target.Item} (h : EmitsItems policy globals st ss items st')
    (is : List Target.Include) :
    ∀ t ∈ Target.Program.stmts ⟨is, items⟩, ∃ st₁ s b st₂, Emits policy st₁ s b st₂ ∧ t ∈ b := by
  induction h with
  | nil => simp [Target.Program.stmts, nestedBlock]
  | @function st _ d ss body s items _ _ ih =>
    intro t ht
    obtain ⟨stop, hbody, -⟩ := emits_emitFunction policy globals st.records s body
    simp only [Target.Program.stmts, Target.Program.functions_function, List.flatMap_cons,
      Target.Program.mainBody_function, List.append_assoc, List.mem_append (s := nestedBlock _)]
      at ht
    rcases ht with ht | ht
    · obtain ⟨s, -, st₁, b, st₂, -, hemits, hmem⟩ := hbody.origin t ht
      exact ⟨st₁, s, b, st₂, hemits, hmem⟩
    · exact ih t ht
  | @stmt st _ _ d ss b items _ hfirst _ ih =>
    intro t ht
    simp only [Target.Program.stmts, Target.Program.functions_stmts, Target.Program.mainBody_stmts,
      Target.Stmt.nestedBlock_append, List.mem_append] at ht ih
    rcases ht with ht | ht | ht
    · exact ih t (.inl ht)
    · obtain ⟨s, -, st₁, b, st₂, -, hemits, hmem⟩ := hfirst.origin t ht
      exact ⟨st₁, s, b, st₂, hemits, hmem⟩
    · exact ih t (.inr ht)

/-- **A counting loop owns its counter**: no statement in its body sets it, and so no run of its
body changes it. -/
theorem counter_owned (policy : Policy) (m : Source.Module) {counter : String}
    {start stop : Target.Expr} {step : Int64} {body : List Target.Stmt}
    (h : .forLoop counter start stop step body ∈ (emit policy m).program.stmts) :
    (∀ s ∈ nestedBlock body, s.sets counter = false) ∧
      ∀ (M : Machine) (rounds : Nat) (memory : Machine.Memory) (r : Signal × Machine.Memory),
        Machine.inScope (fun memory => M.execBlock rounds memory body) memory = .ok r →
          Machine.load r.2.cells counter = Machine.load memory.cells counter := by
  obtain ⟨last, hitems, -⟩ := emitsItems_emit policy m
  obtain ⟨st₁, s, b, st₂, hemits, hmem⟩ := hitems.exists_emits _ _ h
  have hsets : ∀ s ∈ nestedBlock body, s.sets counter = false := by
    cases hemits with
    | forLoop hhead hbody =>
      obtain ⟨rfl, -, -, -, rfl⟩ := Target.Stmt.forLoop.inj (List.mem_singleton.1 hmem)
      exact hhead.sets_eq_false hbody
    | _ => simp [SkipRecord.comment] at hmem
  refine ⟨hsets, fun M rounds memory r hr => ?_⟩
  exact (Machine.ensures_inScope (Machine.ensures_execBlock memory body hsets) r hr).value

end Lowering

open Source.Compose in
/-- A loop in a loop, with a sum and a variable of its own; a third loop sets its own counter. -/
def Source.counting : Source.Module :=
  script
    [assign "n" (int 0),
     forLoop "i" (call (name "range") [int 4] [])
       [forLoop "j" (call (name "range") [name "i"] [])
         [ifElse (name "j") [augAssign "n" .add (name "j")] [assign "k" (name "i")]]],
     forLoop "i" (call (name "range") [int 4] []) [assign "i" (int 0)]]

/-- The outer loop has an assignment, a declaration and a loop in it, and owns its counter; the last
loop is left out. -/
theorem Lowering.counting_owned :
    let body : List Target.Stmt :=
      [.forLoop "j" (.ofInt 0) (.var "i" .integer) 1
        [.ifElse
          [(.var "j" .integer,
            [.assign "n" (.binary .add (.var "n" .integer) (.var "j" .integer) .integer)])]
          (some [.decl "k" .integer (.var "i" .integer)])]]
    .forLoop "i" (.ofInt 0) (.ofInt 4) 1 body ∈
        (emit ⟨.template, .keep⟩ Source.counting).program.stmts ∧
      (emit ⟨.template, .keep⟩ Source.counting).records.length = 1 ∧
      (∀ s ∈ Target.Stmt.nestedBlock body, s.sets "i" = false) ∧
      ∀ (M : Machine) (rounds : Nat) (memory : Machine.Memory) (r : Signal × Machine.Memory),
        Machine.inScope (fun memory => M.execBlock rounds memory body) memory = .ok r →
          Machine.load r.2.cells "i" = Machine.load memory.cells "i" := by
  intro body
  have hmem : .forLoop "i" (.ofInt 0) (.ofInt 4) 1 body ∈
      (emit ⟨.template, .keep⟩ Source.counting).program.stmts := List.mem_of_getElem? (i := 1) rfl
  exact ⟨hmem, by decide +kernel, counter_owned _ _ hmem⟩

end StaticScript
