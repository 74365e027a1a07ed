import StaticScript.Proofs.Preservation.Memory
import StaticScript.Typing.Statement

/-!
# Loops are preserved

A `while` takes the same rounds on both sides (`settles_while`).  A loop over a `range` goes through
values that are settled before the first round, while the counting loop that stands for it tests its
counter against its bound in every round.  The two agree if the body changes neither the counter nor
the bound (`settles_for`): before every round the counter is the first of the values that are left.
-/

namespace StaticScript.Machine

variable {M : Machine} {scope : Frame} {s s' : Script.State} {m : Memory}

/-! ### Scopes and conditions -/

/-- A block gives back the scope that it was entered from. -/
theorem Follows.settles_inScope {body : Script.State → Option (Signal × Script.State)}
    {block : Nat → Memory → Except Fault (Signal × Memory)} {r : Signal × Script.State}
    (h : M.Follows scope body block) (hm : M.Related scope s m) (hr : body s = some r) :
    M.Settles (fun n => inScope (block n) m) (M.Ends scope r) := by
  refine (h hm hr).bind ?_
  rintro ⟨signal, m'⟩ ⟨inner, hsignal, hrel⟩
  rw [hm.length_cells]
  exact (yields_ok ⟨hsignal, hrel.leave⟩).settles

theorem Tests.yields_test {t : Target.Expr} {b : Bool} (h : M.Tests m.cells t b) :
    M.Yields (M.test t m) fun c => c = b :=
  Yields.bind h fun _ hw => yields_ok hw

/-! ### `while` -/

/-- A `while` keeps the scope that it stands in. -/
theorem settles_while {test : Script.State → Option Bool} {c : Target.Expr}
    {body : Script.State → Option (Signal × Script.State)}
    {block : Nat → Memory → Except Fault (Signal × Memory)}
    (htest : ∀ s m b, M.Related scope s m → test s = some b → M.Tests m.cells c b)
    (hbody : M.Follows scope body block) {rounds : Nat} (hm : M.Related scope s m)
    (h : Script.loop test body rounds s = some s') (done : Nat) :
    M.Settles (fun n => loop (M.test c) (inScope (block n)) .ok (n - done) m)
      (M.Related scope s') := by
  induction rounds generalizing s m done with
  | zero => cases h
  | succ rounds ih =>
    simp only [Script.loop, Option.bind_eq_bind, Option.bind_eq_some_iff] at h
    obtain ⟨b, hb, h⟩ := h
    refine settles_loop done ((htest s m b hm hb).yields_test.imp fun c hc => ?_)
    subst hc
    cases c with
    | false =>
      obtain rfl := Option.some.inj h
      exact hm
    | true =>
      simp only [if_true, Option.bind_eq_some_iff] at h ⊢
      obtain ⟨⟨signal, s₁⟩, hr, h⟩ := h
      refine (hbody.settles_inScope hm hr).imp ?_
      rintro ⟨signal', m₁⟩ ⟨hsignal, hm₁⟩
      obtain rfl : signal' = signal := hsignal
      cases signal' with
      | brk =>
        obtain rfl := Option.some.inj h
        exact hm₁
      | next | cont => exact yields_ok (ih hm₁ h (done + 1))

/-! ### Assignments -/

theorem convert_image {v : Script.Value} (h : M.Holds v) :
    M.convert v.type (image v) = .ok (image v) := by
  obtain ⟨n, hn, hfits⟩ := h
  cases v with
  | int k =>
    obtain rfl := Option.some.inj hn
    simp [Script.Value.type, image, convert, Value.number?, int, hfits]
  | bool b => rfl
  | str => cases hn

theorem convert_integer {v : Script.Value} {n : Int} (h : v.number? = some n) :
    M.convert .integer (image v) = M.int n := by
  cases v with
  | int | bool =>
    obtain rfl := Option.some.inj h
    rfl
  | str => cases h

theorem yields_assign {x : String} {e : Target.Expr} {v : Script.Value} {c : Cell}
    (hc : m.cells.find? (·.name = x) = some c) (htype : c.type = v.type)
    (he : M.Evaluates m.cells e v) :
    M.Yields (M.assign x e m) fun m' =>
      m' = { m with cells := storeCell x (image v) m.cells } ∧ M.Holds v := by
  refine he.bind ?_
  rintro w ⟨hw, hv⟩
  simp only [hc, htype, hw, convert_image hv]
  exact yields_ok ⟨rfl, hv⟩

/-! ### Counting loops -/

theorem Mirrors.cons {env : Environment} {store : Script.Store} {cells : List Cell}
    (h : M.Mirrors env store cells) {x : String} (hx : env.lookup x = none) (v : Script.Value) :
    M.Mirrors env store (cellOf x v :: cells) := by
  intro y t hy
  obtain ⟨w, hw, htype, hload, hholds⟩ := h y t hy
  refine ⟨w, hw, htype, ?_, hholds⟩
  have hne : x ≠ y := by
    rintro rfl
    rw [hx] at hy
    cases hy
  rw [← hload]
  simp [load, cellOf, hne]

/-- The innermost variable is the counter `x`, which has the value `i`, and those below it are
related. -/
def Counting (M : Machine) (scope : Frame) (x : String) (i : Int) (s : Script.State) (m : Memory) :
    Prop :=
  M.fits i = true ∧ ∃ rest, m.cells = cellOf x (.int i) :: rest ∧
    M.Related scope s { m with cells := rest }

theorem Related.uncons {x : String} {t : StaticType} (h : M.Related ((x, t) :: scope) s m) :
    ∃ v rest, s.store x = some v ∧ m.cells = cellOf x v :: rest ∧ M.Holds v ∧
      M.Related scope s { m with cells := rest } := by
  obtain ⟨cells, output⟩ := m
  obtain ⟨hnodup, hscope, hholds, houtput⟩ := h
  cases cells with
  | nil => cases hscope
  | cons c rest =>
    simp only [List.map_cons, List.cons.injEq, Prod.mk.injEq] at hscope
    obtain ⟨⟨rfl, -⟩, hrest⟩ := hscope
    obtain ⟨v, hv, hcell, hfits⟩ := hholds c List.mem_cons_self
    exact ⟨v, rest, hv, by rw [← hcell], hfits, (List.nodup_cons.1 hnodup).2, hrest,
      fun d hd => hholds d (List.mem_cons_of_mem _ hd), houtput⟩

theorem Counting.related {x : String} {i : Int} (h : M.Counting scope x i s m)
    (hx : scope.lookup x = none) :
    M.Related ((x, .integer) :: scope) (s.set x (.int i)) m := by
  obtain ⟨hfits, rest, hcells, hrest⟩ := h
  have hdeclare := hrest.declare hx (v := .int i) ⟨i, rfl, hfits⟩
  obtain ⟨cells, output⟩ := m
  obtain rfl : cells = _ := hcells
  exact hdeclare

theorem Counting.evaluates_var {x : String} {i : Int} (h : M.Counting scope x i s m) :
    M.Evaluates m.cells (.var x .integer) (.int i) := by
  obtain ⟨hfits, rest, hcells, -⟩ := h
  refine .inl ⟨.int i, ?_, rfl, i, rfl, hfits⟩
  simp [eval, load, hcells, cellOf, image]

theorem step_neg_iff {step : Int64} : step < 0 ↔ step.toInt < 0 := by
  rw [Int64.lt_iff_toInt_lt, Int64.toInt_zero]

/-- The test of a counting loop. -/
theorem Counting.yields_test {x : String} {i b : Int} {stop : Target.Expr} {w : Script.Value}
    {step : Int64} (h : M.Counting scope x i s m) (hstop : M.Evaluates m.cells stop w)
    (hw : w.number? = some b) :
    M.Yields (M.test (counterTest x stop step) m) fun c =>
      c = decide (Script.Before step.toInt i b) := by
  refine Tests.yields_test (Evaluates.tests (v := .bool _) ?_)
  unfold counterTest
  split
  · rename_i hneg
    refine evaluates_binary _ h.evaluates_var hstop rfl hw rfl (yields_ok ⟨?_, holds_bool _⟩)
    refine congrArg Value.bool (decide_eq_decide.2 ?_)
    rw [Script.Before, if_pos (step_neg_iff.1 hneg)]
  · rename_i hpos
    refine evaluates_binary _ h.evaluates_var hstop rfl hw rfl (yields_ok ⟨?_, holds_bool _⟩)
    refine congrArg Value.bool (decide_eq_decide.2 ?_)
    rw [Script.Before, if_neg (mt step_neg_iff.2 hpos)]

/-- The end of a round of a counting loop. -/
theorem Counting.yields_next {x : String} {i : Int} (h : M.Counting scope x i s m) (step : Int64) :
    M.Yields (M.assign x (nextCount x step) m) fun m' =>
      M.Counting scope x (i + step.toInt) s m' := by
  have hnext : M.Evaluates m.cells (nextCount x step) (.int (i + step.toInt)) :=
    evaluates_binary _ h.evaluates_var (yields_image_int step.toInt) rfl rfl rfl
      (yields_image_int _)
  obtain ⟨hfits, rest, hcells, hrest⟩ := h
  have hfind : m.cells.find? (·.name = x) = some (cellOf x (.int i)) := by
    simp [hcells, cellOf]
  refine (yields_assign hfind rfl hnext).imp ?_
  rintro m' ⟨hm', hholds⟩
  refine ⟨hholds.fits rfl, rest, ?_, ?_⟩
  · rw [hm', hcells]
    simp [storeCell, cellOf, Script.Value.type]
  · rw [hm']
    exact hrest

/-- A loop over the values of a `range` and a loop that counts through them. -/
theorem settles_for {x : String} {stop : Source.Expr} {stop' : Target.Expr} {step : Int64}
    {w : Script.Value} {b : Int} {body : Script.State → Option (Signal × Script.State)}
    {block : Nat → Memory → Except Fault (Signal × Memory)} (hx : scope.lookup x = none)
    (hstep : step.toInt ≠ 0) (hw : w.number? = some b)
    (hstop : ∀ s m i, M.Counting scope x i s m → Script.eval s.store stop = some w →
      M.Evaluates m.cells stop' w)
    (hbody : M.Follows ((x, .integer) :: scope) body block)
    (hcounter : ∀ s r, body s = some r → r.2.store x = s.store x)
    (hkept : ∀ (s : Script.State) i r, body (s.set x (.int i)) = some r →
      Script.eval s.store stop = some w → Script.eval r.2.store stop = some w)
    {i : Int} (hm : M.Counting scope x i s m) (hvalue : Script.eval s.store stop = some w)
    (h : Script.each (fun n s => body (s.set x (.int n))) (Script.rangeValues i b step.toInt) s =
      some s') (done : Nat) :
    M.Settles (fun n => loop (M.test (counterTest x stop' step)) (inScope (block n))
      (M.assign x (nextCount x step)) (n - done) m) fun m' =>
        ∃ c rest, m'.cells = c :: rest ∧ M.Related scope s' { m' with cells := rest } := by
  generalize hns : Script.rangeValues i b step.toInt = ns at h
  induction ns generalizing i s m done with
  | nil =>
    obtain rfl := Option.some.inj h
    have hlast := (Script.rangeValues_eq_nil hstep).1 hns
    refine settles_loop done ((hm.yields_test (hstop s m i hm hvalue) hw).imp fun c hc => ?_)
    obtain rfl : c = false := by simpa [hlast] using hc
    obtain ⟨-, rest, hrest⟩ := hm
    exact ⟨_, rest, hrest⟩
  | cons n ns ih =>
    obtain ⟨hbefore, rfl, hvalues⟩ := (Script.rangeValues_eq_cons hstep).1 hns
    simp only [Script.each, Option.bind_eq_bind, Option.bind_eq_some_iff] at h
    obtain ⟨⟨signal, s₁⟩, hr, h⟩ := h
    refine settles_loop done ((hm.yields_test (hstop s m i hm hvalue) hw).imp fun c hc => ?_)
    obtain rfl : c = true := by simpa [hbefore] using hc
    rw [if_pos rfl]
    refine (hbody.settles_inScope (hm.related hx) hr).imp ?_
    rintro ⟨signal', m₁⟩ ⟨hsignal, hm₁⟩
    obtain rfl : signal' = signal := hsignal
    obtain ⟨v, rest, hv, hcells, hholds, hrest⟩ := hm₁.uncons
    -- The body has left the counter alone, so its variable still has the value of this round.
    have hset : s₁.store x = some (.int i) := (hcounter _ _ hr).trans (if_pos rfl)
    obtain rfl : v = .int i := Option.some.inj (hv.symm.trans hset)
    cases signal' with
    | brk =>
      obtain rfl := Option.some.inj h
      exact ⟨_, rest, hcells, hrest⟩
    | next | cont =>
      have hcounting : M.Counting scope x i s₁ m₁ := ⟨hholds.fits rfl, rest, hcells, hrest⟩
      refine (hcounting.yields_next step).imp fun m₂ hm₂ => ?_
      exact ih hm₂ (hkept s i _ hr hvalue) (done + 1) hvalues h

end StaticScript.Machine
