import StaticScript.Proofs.Preservation.Loop
import StaticScript.Lowering.Program
import StaticScript.Source.Compose
import StaticScript.Target.Printer

/-!
# Where 32 bits are too few

A remainder that has the sign of the divisor always fits, and so does every value of a `range`
between bounds that fit.  The program may still leave the 32 bits on the way.  The sign of a
remainder is set right by adding the divisor, and that sum need not fit (`eval_remainder_eq`).  A
counting loop steps once past the last of its values, and that value need not fit either
(`exec_forLoop_eq`).  In every other case both are exact.

The loop counts in 32 bits whatever its step is.  This leaves aside that the size of the step
`-2147483648`, which is printed behind `-=`, is a literal of a wider type in C++.
-/

namespace StaticScript

namespace Machine

open Target (Expr BinaryOp)

variable {M : Machine} {cells : List Cell}

theorem hardware_int (n : Int) :
    hardware.int n = if fitsWord n then .ok (.int n) else .error .overflow := rfl

/-! ### Remainders -/

theorem eval_binary_of_ints {left right : Expr} {a b : Int} (op : BinaryOp) (type : StaticType)
    (hleft : M.eval cells left = .ok (.int a)) (hright : M.eval cells right = .ok (.int b))
    (hop : settling? op = none) : M.eval cells (.binary op left right type) = M.onInts op a b := by
  simp only [eval, hleft, hright, hop]
  rfl

theorem eval_binary_of_fault {op : BinaryOp} {left : Expr} {fault : Fault} (right : Expr)
    (type : StaticType) (hleft : M.eval cells left = .error fault) :
    M.eval cells (.binary op left right type) = .error fault := by
  simp only [eval, hleft]
  rfl

/-- Only one quotient of numbers that fit does not fit. -/
theorem fitsWord_tdiv_iff {a b : Int} (ha : fitsWord a = true) (hb : b ≠ 0) :
    fitsWord (a.tdiv b) = true ↔ ¬ (a = -2147483648 ∧ b = -1) := by
  constructor
  · rintro hfits ⟨rfl, rfl⟩
    cases hfits
  · intro hleast
    simp only [fitsWord, decide_eq_true_eq] at ha ⊢
    -- A quotient is smaller than what is divided, unless the divisor is `1` or `-1`.
    by_cases hunit : b.natAbs = 1
    · obtain rfl | rfl := Int.natAbs_eq_iff.1 hunit
      · rwa [Nat.cast_one, Int.tdiv_one]
      · rw [Nat.cast_one, Int.tdiv_neg, Int.tdiv_one]
        simp only [Nat.cast_one, and_true] at hleast
        omega
    · have hsize : (a.tdiv b).natAbs = a.natAbs / b.natAbs := Int.natAbs_tdiv a b
      by_cases hzero : a = 0
      · rw [hzero, Int.zero_tdiv]
        decide
      · have hlt : a.natAbs / b.natAbs < a.natAbs := Nat.div_lt_self (by omega) (by omega)
        omega

theorem natAbs_tmod_lt (a : Int) {b : Int} (hb : b ≠ 0) : (a.tmod b).natAbs < b.natAbs := by
  rw [Int.natAbs_tmod]
  exact Nat.mod_lt _ (by omega)

theorem fitsWord_tmod (a : Int) {b : Int} (hb : fitsWord b = true) (hne : b ≠ 0) :
    fitsWord (a.tmod b) = true := by
  have hlt := natAbs_tmod_lt a hne
  simp only [fitsWord, decide_eq_true_eq] at hb ⊢
  omega

theorem onInts_mod {a b : Int} (ha : fitsWord a = true) (hb : fitsWord b = true) (hne : b ≠ 0) :
    hardware.onInts .mod a b =
      if a = -2147483648 ∧ b = -1 then .error .overflow else .ok (.int (a.tmod b)) := by
  have hquotient := fitsWord_tdiv_iff ha hne
  simp only [onInts, if_neg hne, hardware_int, fitsWord_tmod a hb hne, if_true]
  split
  · rename_i hfits
    rw [if_neg (hquotient.1 hfits)]
    rfl
  · rename_i hfits
    rw [if_pos (not_not.1 (mt hquotient.2 hfits))]
    rfl

/-- The sum is less than twice the divisor, so its quotient is small. -/
theorem fitsWord_tdiv_tmod_add (a : Int) {b : Int} (hne : b ≠ 0) :
    fitsWord ((a.tmod b + b).tdiv b) = true := by
  have hlt := natAbs_tmod_lt a hne
  have hquotient : ((a.tmod b + b).tdiv b).natAbs < 2 := by
    rw [Int.natAbs_tdiv]
    exact (Nat.div_lt_iff_lt_mul (by omega)).2 (by omega)
  simp only [fitsWord, decide_eq_true_eq]
  omega

/-- The second remainder of a number that has been reduced is defined. -/
theorem onInts_mod_tmod_add (a : Int) {b : Int} (hb : fitsWord b = true) (hne : b ≠ 0) :
    hardware.onInts .mod (a.tmod b + b) b = .ok (.int (a.fmod b)) := by
  have hfits := fitsWord_tmod (a.tmod b + b) hb hne
  rw [tmod_tmod_add] at hfits
  simp only [onInts, if_neg hne, hardware_int, fitsWord_tdiv_tmod_add a hne, tmod_tmod_add, hfits,
    if_true]
  rfl

/-- The sum fits if the signs differ, or if the divisor is at most half of what fits. -/
theorem fitsWord_tmod_add {a b : Int} (hb : fitsWord b = true) (hne : b ≠ 0)
    (h : a * b ≤ 0 ∨ b.natAbs ≤ 1073741824) : fitsWord (a.tmod b + b) = true := by
  have hlt := natAbs_tmod_lt a hne
  simp only [fitsWord, decide_eq_true_eq] at hb ⊢
  rcases h with hsigns | hsmall
  · rcases mul_nonpos_iff.1 hsigns with ⟨ha, hb⟩ | ⟨ha, hb⟩
    · have := Int.tmod_nonneg b ha
      omega
    · have := Int.tmod_nonneg b (neg_nonneg.2 ha)
      rw [Int.neg_tmod] at this
      omega
  · omega

/-- **Where a remainder is exact.**  The remainder of numbers that fit has the sign of the divisor
and fits.  Its program computes it, except for the least number divided by `-1` and where the
remainder that is rounded toward zero and the divisor have a sum that does not fit. -/
theorem eval_remainder_eq {left right : Expr} {l r : Int} (hleftType : left.type = .integer)
    (hrightType : right.type = .integer) (hleft : hardware.eval cells left = .ok (.int l))
    (hright : hardware.eval cells right = .ok (.int r)) (hl : fitsWord l = true)
    (hr : fitsWord r = true) (hne : r ≠ 0) :
    fitsWord (l.fmod r) = true ∧
    (∃ t, Lowering.binaryExpr .mod false left right = .ok t ∧
      hardware.eval cells t =
        if (l = -2147483648 ∧ r = -1) ∨ fitsWord (l.tmod r + r) = false then .error .overflow
        else .ok (.int (l.fmod r))) ∧
    (l * r ≤ 0 ∨ r.natAbs ≤ 1073741824 → fitsWord (l.tmod r + r) = true) := by
  refine ⟨?_, ?_, fitsWord_tmod_add hr hne⟩
  · rw [← tmod_tmod_add]
    exact fitsWord_tmod _ hr hne
  have hlower : Lowering.binaryExpr .mod false left right =
      .ok (.binary .mod (.binary .add (.binary .mod left right .integer) right .integer) right
        .integer) := by
    simp only [Lowering.binaryExpr, hleftType, hrightType]
    rfl
  refine ⟨_, hlower, ?_⟩
  have hinner := eval_binary_of_ints .mod .integer hleft hright rfl
  rw [onInts_mod hl hr hne] at hinner
  by_cases hleast : l = -2147483648 ∧ r = -1
  · rw [if_pos hleast] at hinner
    rw [if_pos (.inl hleast)]
    exact eval_binary_of_fault _ _ (eval_binary_of_fault _ _ hinner)
  · rw [if_neg hleast] at hinner
    have hsum := eval_binary_of_ints .add .integer hinner hright rfl
    rw [onInts, hardware_int] at hsum
    cases hfits : fitsWord (l.tmod r + r) with
    | false =>
      rw [hfits, if_neg Bool.false_ne_true] at hsum
      rw [if_pos (.inr rfl)]
      exact eval_binary_of_fault _ _ hsum
    | true =>
      rw [hfits, if_pos rfl] at hsum
      rw [if_neg (by simp [hleast]), eval_binary_of_ints .mod .integer hsum hright rfl,
        onInts_mod_tmod_add l hr hne]

/-- The least number divided by the greatest. -/
theorem remainder_of_least :
    hardware.eval [] (.ofInt (-2147483648)) = .ok (.int (-2147483648)) ∧
    hardware.eval [] (.ofInt 2147483647) = .ok (.int 2147483647) ∧
    ∃ t, Lowering.binaryExpr .mod false (.ofInt (-2147483648)) (.ofInt 2147483647) = .ok t ∧
      hardware.eval [] t = .ok (.int 2147483646) := by
  have hleft : hardware.eval [] (.ofInt (-2147483648)) = .ok (.int (-2147483648)) := by decide
  have hright : hardware.eval [] (.ofInt 2147483647) = .ok (.int 2147483647) := by decide
  obtain ⟨-, ⟨t, ht, heval⟩, -⟩ :=
    eval_remainder_eq rfl rfl hleft hright (by decide) (by decide) (by decide)
  exact ⟨hleft, hright, t, ht, heval⟩

end Machine

open Source.Compose in
/-- A remainder with a large divisor. -/
def Source.barelyReduced : Source.Module :=
  script [expr (call (name "print") [binary (int 1) .mod (int 2147483647)] [])]

/-- The remainder is `1`, but the divisor added to it does not fit. -/
theorem Machine.barelyReduced_overflows :
    Script.run 1 Source.barelyReduced = some "1\n" ∧
    (Lowering.emit .standard Source.barelyReduced).records = [] ∧
    Machine.ideal.run 1 (Lowering.emit .standard Source.barelyReduced).program = .ok "1\n" ∧
    Machine.hardware.run 1 (Lowering.emit .standard Source.barelyReduced).program =
      .error .overflow := by
  decide +kernel

/-! ### The headers of counting loops -/

namespace Target

/-- What the header of a counting loop says about its rounds. -/
structure Header where
  /-- The comparison of the counter with its bound. -/
  test : BinaryOp
  /-- The operation that changes the counter, and its right operand. -/
  update : BinaryOp
  size : Nat

namespace Header

/-- The header for a step. -/
def ofStep (step : Int64) : Header :=
  if step < 0 then ⟨.gt, .sub, step.toInt.natAbs⟩ else ⟨.lt, .add, step.toInt.natAbs⟩

/-- The text of a header. -/
def text (h : Header) (counter : String) (start stop : Expr) : String :=
  "for (int " ++ counter ++ " = " ++ start.bare ++ "; " ++
    counter ++ " " ++ h.test.symbol ++ " " ++ stop.text ++ "; " ++
    counter ++ " " ++ h.update.symbol ++ "= " ++ toString h.size ++ ")"

end Header

theorem loopHeader_eq (counter : String) (start stop : Expr) (step : Int64) :
    loopHeader counter start stop step = (Header.ofStep step).text counter start stop := by
  have hgt : " > " = " " ++ (BinaryOp.gt.symbol ++ " ") := rfl
  have hlt : " < " = " " ++ (BinaryOp.lt.symbol ++ " ") := rfl
  have hsub : " -= " = " " ++ (BinaryOp.sub.symbol ++ "= ") := rfl
  have hadd : " += " = " " ++ (BinaryOp.add.symbol ++ "= ") := rfl
  unfold loopHeader Header.ofStep Header.text
  split
  · simp only [hgt, hsub, String.append_assoc]
  · simp only [hlt, hadd, String.append_assoc]

end Target

/-! ### Counting loops -/

namespace Script

/-- The first value behind a `range`. -/
def rangeEnd (start stop step : Int) : Int :=
  start + step * (rangeValues start stop step).length

theorem rangeEnd_eq {start stop step : Int} (h : step ≠ 0) :
    rangeEnd start stop step =
      if Before step start stop then rangeEnd (start + step) stop step else start := by
  unfold rangeEnd
  rw [rangeValues_eq h]
  split
  · rw [List.length_cons]
    push_cast
    ring
  · simp

/-- Unless it is empty, a `range` ends at its bound or less than a step behind it. -/
theorem rangeEnd_between {start stop step : Int} (h : step ≠ 0) (hbefore : Before step start stop) :
    ¬ Before step (rangeEnd start stop step) stop ∧
      Before step (rangeEnd start stop step) (stop + step) := by
  generalize hns : rangeValues (start + step) stop step = ns
  induction ns generalizing start with
  | nil =>
    have hlast := (rangeValues_eq_nil h).1 hns
    rw [rangeEnd_eq h, if_pos hbefore, rangeEnd_eq h, if_neg hlast]
    refine ⟨hlast, ?_⟩
    unfold Before at hbefore ⊢
    split <;> split at hbefore <;> omega
  | cons n ns ih =>
    obtain ⟨hnext, -, hns⟩ := (rangeValues_eq_cons h).1 hns
    rw [rangeEnd_eq h, if_pos hbefore]
    exact ih hnext hns

end Script

namespace Machine

open Target (Expr Header Stmt)
open Script (Before rangeValues rangeEnd)

/-- Runs a block once for each value of a counter, which is declared anew for every round, up to a
`break`. -/
def eachCount (counter : String) (block : Memory → Except Fault (Signal × Memory)) :
    List Int → Memory → Except Fault (Signal × Memory)
  | [], m => .ok (.next, m)
  | n :: ns, m => do
    let (signal, m') ← block (m.declare counter .integer (.int n))
    match signal with
    | .brk => .ok (.brk, m'.leave m.cells.length)
    | _ => eachCount counter block ns (m'.leave m.cells.length)

section

variable (M : Machine) (counter : String) (stop : Expr) (b : Int)

/-- The bound of a loop has the value `b`, whatever its counter is. -/
def Bounded (m : Memory) : Prop :=
  ∀ v, M.eval (m.declare counter .integer (.int v)).cells stop = .ok (.int b)

/-- A block leaves the counter and the bound of the loop around it as they are, and declares no
variable that stays. -/
def Spares (block : Memory → Except Fault (Signal × Memory)) : Prop :=
  ∀ ⦃m v signal m'⦄, M.Bounded counter stop b m →
    block (m.declare counter .integer (.int v)) = .ok (signal, m') →
    ∃ m₁, m' = m₁.declare counter .integer (.int v) ∧ m₁.cells.length = m.cells.length ∧
      M.Bounded counter stop b m₁

end

section

variable {counter : String} {stop : Expr} {step : Int64} {b v : Int} {m : Memory}

theorem load_declare (x : String) (type : StaticType) (w : Value) :
    load (m.declare x type w).cells x = .ok w := by
  simp [load, Memory.declare]

/-- The test of a round. -/
theorem Bounded.test_eq {M : Machine} (h : M.Bounded counter stop b m) (step : Int64) (v : Int) :
    M.test (counterTest counter stop step) (m.declare counter .integer (.int v)) =
      .ok (decide (Before step.toInt v b)) := by
  have hcounter : M.eval (m.declare counter .integer (.int v)).cells (.var counter .integer) =
      .ok (.int v) := load_declare counter .integer (.int v)
  unfold test counterTest Before
  split
  · rename_i hneg
    rw [eval_binary_of_ints _ .boolean hcounter (h v) rfl]
    simp only [if_pos (step_neg_iff.1 hneg)]
    rfl
  · rename_i hpos
    rw [eval_binary_of_ints _ .boolean hcounter (h v) rfl]
    simp only [if_neg (mt step_neg_iff.2 hpos)]
    rfl

/-- The update behind a round. -/
theorem assign_nextCount (hstep : fitsWord step.toInt = true) :
    hardware.assign counter (nextCount counter step) (m.declare counter .integer (.int v)) =
      if fitsWord (v + step.toInt) then .ok (m.declare counter .integer (.int (v + step.toInt)))
      else .error .overflow := by
  have hcounter : hardware.eval (m.declare counter .integer (.int v)).cells
      (.var counter .integer) = .ok (.int v) := load_declare counter .integer (.int v)
  have hsize : hardware.eval (m.declare counter .integer (.int v)).cells (.ofInt step) =
      .ok (.int step.toInt) := by
    rw [Expr.ofInt, eval, hardware_int, if_pos hstep]
  rw [assign, nextCount, eval_binary_of_ints .add .integer hcounter hsize rfl, onInts, hardware_int]
  split
  · rename_i hfits
    simp [Memory.declare, convert, Value.number?, hardware_int, hfits, storeCell, bind, Except.bind,
      pure, Except.pure]
  · rfl

/-- The update that the header writes out. -/
theorem onInts_update (step : Int64) (v : Int) :
    hardware.onInts (Header.ofStep step).update v (Header.ofStep step).size =
      hardware.int (v + step.toInt) := by
  unfold Header.ofStep
  split
  · rename_i hneg
    have := step_neg_iff.1 hneg
    exact congrArg hardware.int (by simp only; omega)
  · rename_i hpos
    have := mt step_neg_iff.2 hpos
    exact congrArg hardware.int (by simp only; omega)

/-- Only behind the last round can the counter get too large. -/
theorem not_before_of_overflow (hb : fitsWord b = true) (hv : fitsWord v = true) {step : Int}
    (h : fitsWord (v + step) = false) : ¬ Before step (v + step) b := by
  simp only [fitsWord, decide_eq_true_eq, decide_eq_false_iff_not] at hb hv h
  unfold Before
  split <;> omega

theorem leave_declare (x : String) (type : StaticType) (w : Value) :
    (m.declare x type w).leave m.cells.length = m := by
  simp [Memory.declare, Memory.leave]

variable {block : Memory → Except Fault (Signal × Memory)}

/-- What follows the rounds of a counting loop: unless a `break` has ended them, the counter gets
the value behind its last one. -/
def pastLast (behind : Int) : Signal × Memory → Except Fault (Signal × Memory)
  | (signal, m) => if signal = .brk ∨ fitsWord behind then .ok (.next, m) else .error .overflow

theorem pastLast_eq_ok {behind : Int} {signal : Signal}
    (h : signal = .brk ∨ fitsWord behind = true) : pastLast behind (signal, m) = .ok (.next, m) :=
  if_pos h

section

variable {test : Memory → Except Fault Bool} {after : Memory → Except Fault Memory} {rounds : Nat}
  {m' : Memory} {signal : Signal}

theorem loop_of_fault {fault : Fault} (htest : test m = .ok true)
    (hblock : block m = .error fault) :
    loop test block after (rounds + 1) m = .error fault := by
  simp only [loop, htest, hblock]
  rfl

theorem loop_of_brk (htest : test m = .ok true) (hblock : block m = .ok (.brk, m')) :
    loop test block after (rounds + 1) m = .ok m' := by
  simp only [loop, htest, hblock]
  rfl

theorem loop_of_round (htest : test m = .ok true) (hblock : block m = .ok (signal, m'))
    (hsignal : signal ≠ .brk) :
    loop test block after (rounds + 1) m = after m' >>= loop test block after rounds := by
  simp only [loop, htest, hblock]
  cases signal with
  | brk => exact absurd rfl hsignal
  | next | cont => rfl

variable {n : Int} {ns : List Int}

theorem eachCount_of_fault {fault : Fault}
    (h : block (m.declare counter .integer (.int n)) = .error fault) :
    eachCount counter block (n :: ns) m = .error fault := by
  simp only [eachCount, h]
  rfl

theorem eachCount_of_brk (h : block (m.declare counter .integer (.int n)) = .ok (.brk, m')) :
    eachCount counter block (n :: ns) m = .ok (.brk, m'.leave m.cells.length) := by
  simp only [eachCount, h]
  rfl

theorem eachCount_of_round (h : block (m.declare counter .integer (.int n)) = .ok (signal, m'))
    (hsignal : signal ≠ .brk) :
    eachCount counter block (n :: ns) m = eachCount counter block ns (m'.leave m.cells.length) := by
  simp only [eachCount, h]
  cases signal with
  | brk => exact absurd rfl hsignal
  | next | cont => rfl

end

/-- A counting loop from any round on. -/
theorem loop_eq (hne : step.toInt ≠ 0) (hstep : fitsWord step.toInt = true)
    (hb : fitsWord b = true) (hspares : hardware.Spares counter stop b block)
    (hbound : hardware.Bounded counter stop b m) (hv : fitsWord v = true) {rounds : Nat}
    (hrounds : (rangeValues v b step.toInt).length < rounds) :
    (do
      let m' ← loop (hardware.test (counterTest counter stop step)) block
        (hardware.assign counter (nextCount counter step)) rounds
        (m.declare counter .integer (.int v))
      return (Signal.next, m'.leave m.cells.length)) =
    eachCount counter block (rangeValues v b step.toInt) m >>=
      pastLast (rangeEnd v b step.toInt) := by
  generalize hns : rangeValues v b step.toInt = ns at hrounds ⊢
  induction ns generalizing v m rounds with
  | nil =>
    have hlast := (Script.rangeValues_eq_nil hne).1 hns
    obtain ⟨rounds, rfl⟩ : ∃ k, rounds = k + 1 := ⟨rounds - 1, by omega⟩
    rw [Script.rangeEnd_eq hne, if_neg hlast]
    simp only [loop, hbound.test_eq, hlast, decide_false, eachCount]
    change Except.ok (Signal.next, (m.declare counter .integer (.int v)).leave m.cells.length) =
      pastLast v (.next, m)
    rw [leave_declare, pastLast_eq_ok (.inr hv)]
  | cons n ns ih =>
    obtain ⟨hbefore, rfl, hvalues⟩ := (Script.rangeValues_eq_cons hne).1 hns
    rw [List.length_cons] at hrounds
    obtain ⟨rounds, rfl⟩ : ∃ k, rounds = k + 1 := ⟨rounds - 1, by omega⟩
    have htest := hbound.test_eq step v
    rw [decide_eq_true hbefore] at htest
    rw [Script.rangeEnd_eq hne, if_pos hbefore]
    cases hblock : block (m.declare counter .integer (.int v)) with
    | error fault =>
      rw [loop_of_fault htest hblock, eachCount_of_fault hblock]
      rfl
    | ok r =>
      obtain ⟨signal, m'⟩ := r
      obtain ⟨m₁, rfl, hlength, hbound₁⟩ := hspares hbound hblock
      by_cases hsignal : signal = .brk
      · subst hsignal
        rw [loop_of_brk htest hblock, eachCount_of_brk hblock, ← hlength, leave_declare]
        change Except.ok (Signal.next, (m₁.declare counter .integer (.int v)).leave
          m₁.cells.length) = pastLast (rangeEnd (v + step.toInt) b step.toInt) (.brk, m₁)
        rw [leave_declare, pastLast_eq_ok (.inl rfl)]
      · rw [loop_of_round htest hblock hsignal, eachCount_of_round hblock hsignal,
          assign_nextCount hstep, ← hlength, leave_declare]
        cases hfits : fitsWord (v + step.toInt) with
        | true => exact ih hbound₁ hfits hvalues (by omega)
        | false =>
          -- The counter leaves the 32 bits only past the bound, so this was the last round.
          have hlast := not_before_of_overflow hb hv hfits
          obtain rfl := hvalues.symm.trans ((Script.rangeValues_eq_nil hne).2 hlast)
          rw [Script.rangeEnd_eq hne, if_neg hlast]
          simp [eachCount, pastLast, hfits, bind, Except.bind]

theorem fitsWord_rangeEnd {a step : Int} (ha : fitsWord a = true) (hb : fitsWord b = true)
    (hne : step ≠ 0) (h : step.natAbs = 1 ∨ fitsWord (b + step) = true) :
    fitsWord (rangeEnd a b step) = true := by
  by_cases hbefore : Before step a b
  · have hbetween := Script.rangeEnd_between hne hbefore
    simp only [fitsWord, decide_eq_true_eq] at hb h ⊢
    unfold Before at hbetween
    split at hbetween <;> omega
  · rw [Script.rangeEnd_eq hne, if_neg hbefore]
    exact ha

/-- **Where a counting loop is exact.**  The loop that counts from `a` up or down to `b` runs its
body once for each value of the `range`, in order, and then comes to an end, up to one overflow:
unless the body has left the loop, the first value behind the `range` has to fit.  It does if the
step is `1` or `-1`, or if the bound leaves room for a step. -/
theorem exec_forLoop_eq {start : Expr} {a : Int} {body : List Stmt} {rounds : Nat}
    (hstart : hardware.eval m.cells start = .ok (.int a)) (ha : fitsWord a = true)
    (hb : fitsWord b = true) (hne : step ≠ 0) (hstep : fitsWord step.toInt = true)
    (hbound : hardware.Bounded counter stop b m)
    (hspares : hardware.Spares counter stop b (inScope fun m => hardware.execBlock rounds m body))
    (hrounds : (rangeValues a b step.toInt).length < rounds) :
    (Target.loopHeader counter start stop step =
        (Header.ofStep step).text counter start stop ∧
      counterTest counter stop step =
        .binary (Header.ofStep step).test (.var counter .integer) stop .boolean ∧
      ∀ v, hardware.onInts (Header.ofStep step).update v (Header.ofStep step).size =
        hardware.int (v + step.toInt)) ∧
    hardware.exec rounds m (.forLoop counter start stop step body) =
      eachCount counter (inScope fun m => hardware.execBlock rounds m body)
        (rangeValues a b step.toInt) m >>= pastLast (rangeEnd a b step.toInt) ∧
    (step.toInt.natAbs = 1 ∨ fitsWord (b + step.toInt) = true →
      fitsWord (rangeEnd a b step.toInt) = true) := by
  have hne' : step.toInt ≠ 0 := by
    intro h
    exact hne (Int64.toInt_inj.1 h)
  refine ⟨⟨Target.loopHeader_eq counter start stop step, ?_, onInts_update step⟩, ?_,
    fitsWord_rangeEnd ha hb hne'⟩
  · unfold counterTest Header.ofStep
    split <;> rfl
  · have hconvert : hardware.convert .integer (.int a) = .ok (.int a) := if_pos ha
    rw [← loop_eq hne' hstep hb hspares hbound ha hrounds]
    simp only [exec, hstart, hconvert, bind, Except.bind]

end

/-- A loop may print its counter. -/
theorem spares_print (rounds : Nat) (x : String) (stop : Expr) (b : Int) :
    hardware.Spares x stop b
      (inScope fun m => hardware.execBlock rounds m [.print [.var x .integer]]) := by
  intro m v signal m' hbound hblock
  have hline : hardware.line (m.declare x .integer (.int v)).cells [.var x .integer] =
      .ok (toString v ++ "\n") := by
    simp only [line, List.mapM_cons, List.mapM_nil, eval, load_declare]
    rfl
  have hrun : inScope (fun m => hardware.execBlock rounds m [.print [.var x .integer]])
      (m.declare x .integer (.int v)) =
        .ok (.next, { m with output := m.output ++ (toString v ++ "\n") }.declare x .integer
          (.int v)) := by
    simp only [inScope, execBlock, exec, hline]
    simp [Memory.leave, Memory.declare, bind, Except.bind, pure, Except.pure]
  rw [hrun] at hblock
  cases hblock
  exact ⟨_, rfl, rfl, hbound⟩

/-- From the least number on, in the greatest steps. -/
theorem striding_exact :
    (rangeValues (-2147483648) 2147483646 2147483647).length < 3 ∧
    (hardware.exec 3 .start (.forLoop "i" (.ofInt (-2147483648)) (.ofInt 2147483646) 2147483647
      [.print [.var "i" .integer]])).map (fun r => r.2.output) = .ok "-2147483648\n-1\n" := by
  have hstart : hardware.eval Memory.start.cells (.ofInt (-2147483648)) =
      .ok (.int (-2147483648)) := rfl
  have hbound : hardware.Bounded "i" (.ofInt 2147483646) 2147483646 .start := fun _ => rfl
  have hlength : (rangeValues (-2147483648) 2147483646 (2147483647 : Int64).toInt).length < 3 := by
    decide +kernel
  obtain ⟨-, hexec, -⟩ := exec_forLoop_eq hstart rfl rfl (by decide) rfl hbound
    (spares_print 3 "i" (.ofInt 2147483646) 2147483646) hlength
  refine ⟨hlength, ?_⟩
  rw [hexec]
  decide +kernel

end Machine

open Source.Compose in
/-- A loop whose counter gets too large behind its last round. -/
def Source.striding : Source.Module :=
  script [
    forLoop "i" (call (name "range") [int 2147483640, int 2147483647, int 5] []) [
      expr (call (name "print") [name "i"] [])]]

theorem Machine.striding_overflows :
    Script.run 1 Source.striding = some "2147483640\n2147483645\n" ∧
    (Lowering.emit .standard Source.striding).records = [] ∧
    Machine.ideal.run 3 (Lowering.emit .standard Source.striding).program =
      .ok "2147483640\n2147483645\n" ∧
    Machine.hardware.run 3 (Lowering.emit .standard Source.striding).program =
      .error .overflow := by
  decide +kernel

end StaticScript
