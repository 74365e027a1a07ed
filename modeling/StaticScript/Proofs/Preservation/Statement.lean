import StaticScript.Proofs.Lowering.LoopBounds
import StaticScript.Proofs.Preservation.Loop
import Mathlib.Data.List.TakeWhile
import StaticScript.Proofs.Typing.Alike

/-!
# Statements are preserved

A run of a statement of the core language is followed by a run of the statements that are emitted
for it (`Emits.settles`): it ends with the same signal, and store and variables are related again.
The proof goes through the rules of `Emits`; what the rules say of scopes, of names that are
declared for the first time and of the counter of a loop is what the relation needs.
-/

namespace StaticScript

open Source (Stmt)

/-! ### Blocks -/

theorem Script.execBlock_singleton (rounds : Nat) (s : Script.State) (stmt : Stmt) :
    Script.execBlock rounds s [stmt] = Script.exec rounds s stmt := by
  simp only [Script.execBlock]
  rcases Script.exec rounds s stmt with _ | ⟨_ | _ | _, s'⟩ <;> rfl

namespace Machine

variable {M : Machine}

theorem execBlock_singleton (rounds : Nat) (m : Memory) (t : Target.Stmt) :
    M.execBlock rounds m [t] = M.exec rounds m t := by
  simp only [execBlock]
  rcases M.exec rounds m t with _ | ⟨_ | _ | _, m'⟩ <;> rfl

theorem execBlock_append (rounds : Nat) (m : Memory) (b bs : List Target.Stmt) :
    M.execBlock rounds m (b ++ bs) = (do
      match ← M.execBlock rounds m b with
      | (.next, m) => M.execBlock rounds m bs
      | ended => .ok ended) := by
  induction b generalizing m with
  | nil => simp only [List.nil_append, execBlock]; rfl
  | cons t b ih =>
    simp only [List.cons_append, execBlock]
    rcases M.exec rounds m t with _ | ⟨_ | _ | _, m'⟩
    · rfl
    · exact ih m'
    · rfl
    · rfl

/-! ### Printing -/

section

variable {env : Environment} {policy : Policy} {store : Script.Store} {cells : List Cell}

theorem yields_shown (hmirrors : M.Mirrors env store cells) {e : Source.Expr} {t : Target.Expr}
    {v : Script.Value} (he : e.isPrintable = true)
    (ht : Lowering.lower env policy .value e = .ok t) (hv : Script.eval store e = some v) :
    M.Yields (do shown t.type (← M.eval cells t)) fun text => text = v.text := by
  by_cases hcore : e.isCore = true
  · obtain ⟨htype, ht⟩ := preserves_lower hmirrors hcore ht hv
    refine ht.bind ?_
    rintro w ⟨hw, n, hn, -⟩
    rw [htype, hw]
    cases v with
    | int k => exact yields_ok rfl
    | bool b => exact yields_ok rfl
    | str => cases hn
  · cases e with
    | str site s =>
      obtain rfl := Except.ok.inj ht
      simp only [Script.eval, Option.some.injEq] at hv
      subst hv
      refine yields_ok ?_
      -- A printed literal ends at the first null character, and there is none.
      have hall : s.toList.takeWhile (· ≠ '\x00') = s.toList := by
        rw [List.takeWhile_eq_self_iff]
        intro c hc
        simp only [Source.Expr.isPrintable, Bool.not_eq_true', List.contains_eq_mem,
          decide_eq_false_iff_not] at he
        simpa using fun h : c = '\x00' => he (h ▸ hc)
      rw [hall, String.ofList_toList]
      rfl
    | _ => exact absurd he hcore

theorem yields_line (hmirrors : M.Mirrors env store cells) {es : List Source.Expr}
    {ts : List Target.Expr} {vs : List Script.Value} (hes : ∀ e ∈ es, e.isPrintable = true)
    (hts : Lowering.lowerArguments env policy es = .ok ts)
    (hvs : es.mapM (Script.eval store) = some vs) :
    M.Yields (M.line cells ts) fun line =>
      line = " ".intercalate (vs.map Script.Value.text) ++ "\n" := by
  suffices M.Yields (ts.mapM fun t => do shown t.type (← M.eval cells t)) fun texts =>
      texts = vs.map Script.Value.text by
    exact this.bind fun texts htexts => yields_ok (by rw [htexts])
  rw [Lowering.lowerArguments, Checked.sequence_eq_ok, Lowering.lowerList_eq_map,
    Checked.map_eq_map_ok] at hts
  induction hts generalizing vs with
  | nil =>
    obtain rfl := Option.some.inj hvs
    exact yields_ok rfl
  | cons ht _ ih =>
    obtain ⟨he, hes⟩ := List.forall_mem_cons.1 hes
    simp only [List.mapM_cons, Option.bind_eq_bind, Option.bind_eq_some_iff, Option.pure_def,
      Option.some.injEq] at hvs
    obtain ⟨v, hv, vs, hvs, rfl⟩ := hvs
    rw [List.mapM_cons]
    refine (yields_shown hmirrors he ht hv).bind fun text htext => ?_
    exact (ih hes hvs).bind fun texts htexts => yields_ok (by rw [htext, htexts]; rfl)

end

end Machine

/-! ### Assignments -/

namespace Lowering

variable {policy : Policy} {store : Script.Store}

theorem isCore_of_binding? {s : Stmt} {x : String} {e : Source.Expr} (hcore : s.isCore = true)
    (hs : binding? s = some (x, e)) : e.isCore = true := by
  rcases exists_of_binding? hs with ⟨site, target, -, rfl⟩ | ⟨site, target, op, value, hx, rfl, rfl⟩
  · simp only [Stmt.isCore, Bool.and_eq_true] at hcore
    exact hcore.2
  · obtain ⟨site, rfl⟩ := Source.Expr.eq_name_of_asName hx
    simp only [Stmt.isCore, Bool.and_eq_true] at hcore
    simp [desugared, Source.Expr.isCore, hcore.1.2, hcore.2]

/-- Running a statement that sets a name to the value of an expression. -/
theorem exec_of_binding? {rounds : Nat} {s : Stmt} {x : String} {e : Source.Expr}
    {σ : Script.State} {r : Signal × Script.State} (hs : binding? s = some (x, e))
    (h : Script.exec rounds σ s = some r) :
    ∃ v, Script.eval σ.store e = some v ∧ r = (.next, σ.set x v) := by
  rcases exists_of_binding? hs with ⟨_, target, hx, rfl⟩ | ⟨_, target, op, value, hx, rfl, rfl⟩
  · simp only [Script.exec, hx, Option.bind_eq_bind, Option.bind_some, Option.bind_eq_some_iff,
      Option.pure_def, Option.some.injEq] at h
    obtain ⟨v, hv, rfl⟩ := h
    exact ⟨v, hv, rfl⟩
  · obtain ⟨site, rfl⟩ := Source.Expr.eq_name_of_asName hx
    simp only [Script.exec, hx, Option.bind_eq_bind, Option.bind_some, Option.bind_eq_some_iff,
      Option.pure_def, Option.some.injEq] at h
    obtain ⟨u, hu, w, hw, v, hv, rfl⟩ := h
    refine ⟨v, ?_, rfl⟩
    simp [desugared, Script.eval, hu, hw, hv]

/-! ### Ranges -/

theorem forall₂_of_mapM {α β : Type} {f : α → Option β} {as : List α} {bs : List β}
    (h : as.mapM f = some bs) : List.Forall₂ (fun a b => f a = some b) as bs := by
  induction as generalizing bs with
  | nil =>
    obtain rfl := Option.some.inj h
    exact .nil
  | cons a as ih =>
    simp only [List.mapM_cons, Option.bind_eq_bind, Option.bind_eq_some_iff, Option.pure_def,
      Option.some.injEq] at h
    obtain ⟨b, hb, bs, hbs, rfl⟩ := h
    exact .cons hb (ih hbs)

theorem toInt_neg_of_fitsInt {n : Int64} (h : Typing.fitsInt (-n) = true) :
    (-n).toInt = -n.toInt := by
  have hlow := n.le_toInt
  have hhigh := n.toInt_lt
  rw [Int64.toInt_neg]
  -- Only the least number has no negation, and it does not fit.
  by_cases hmin : n.toInt = -2 ^ 63
  · have hneg : (-n).toInt = -2 ^ 63 := by rw [Int64.toInt_neg, hmin]; rfl
    rw [Typing.fitsInt, hneg] at h
    exact absurd h (by decide)
  · exact Int.bmod_eq_of_le (by omega) (by omega)

/-- The value of a step. -/
theorem eval_stepLiteral? {e : Source.Expr} {n : Int64} (h : Typing.stepLiteral? e = some n)
    (hfits : Typing.fitsInt n = true) : Script.eval store e = some (.int n.toInt) := by
  unfold Typing.stepLiteral? at h
  split at h
  · obtain rfl := Option.some.inj h
    simp only [Script.eval]
  · obtain rfl := Option.some.inj h
    simp [Script.eval, Script.unary, Script.Value.number?, toInt_neg_of_fitsInt hfits]
  · cases h

/-- The values of a `range` are those between its bounds. -/
theorem rangeValues_of_arguments {es : List Source.Expr} {r : Typing.Range}
    {vs : List Script.Value} {ks ns : List Int} (hr : Typing.rangeOfArguments? es = some r)
    (hfits : Typing.fitsInt r.step = true) (hvs : es.mapM (Script.eval store) = some vs)
    (hks : vs.mapM Script.Value.number? = some ks) (hns : Script.range? ks = some ns) :
    ∃ v a w b, r.start.elim (some (.int 0)) (Script.eval store) = some v ∧ v.number? = some a ∧
      Script.eval store r.stop = some w ∧ w.number? = some b ∧ r.step.toInt ≠ 0 ∧
      ns = Script.rangeValues a b r.step.toInt := by
  have hvs := forall₂_of_mapM hvs
  have hks := forall₂_of_mapM hks
  have hone : (1 : Int64).toInt ≠ 0 := by decide
  unfold Typing.rangeOfArguments? at hr
  split at hr
  · obtain rfl := Option.some.inj hr
    obtain - | ⟨hw, ⟨⟩⟩ := hvs
    obtain - | ⟨hb, ⟨⟩⟩ := hks
    exact ⟨.int 0, 0, _, _, rfl, rfl, hw, hb, hone, (Option.some.inj hns).symm⟩
  · obtain rfl := Option.some.inj hr
    obtain - | ⟨hv, - | ⟨hw, ⟨⟩⟩⟩ := hvs
    obtain - | ⟨ha, - | ⟨hb, ⟨⟩⟩⟩ := hks
    exact ⟨_, _, _, _, hv, ha, hw, hb, hone, (Option.some.inj hns).symm⟩
  · simp only [Option.bind_eq_bind, Option.bind_eq_some_iff, Option.ite_none_left_eq_some,
      Option.some.injEq] at hr
    obtain ⟨n, hn, -, rfl⟩ := hr
    obtain - | ⟨hv, - | ⟨hw, - | ⟨hu, ⟨⟩⟩⟩⟩ := hvs
    obtain - | ⟨ha, - | ⟨hb, - | ⟨hc, ⟨⟩⟩⟩⟩ := hks
    obtain rfl := Option.some.inj (hu.symm.trans (eval_stepLiteral? hn hfits))
    obtain rfl := Option.some.inj hc
    simp only [Script.range?, Option.ite_none_left_eq_some, Option.some.injEq] at hns
    exact ⟨_, _, _, _, hv, ha, hw, hb, hns.1, hns.2.symm⟩
  · cases hr

/-! ### Regular statements -/

/-- The statement is of the core language, and the bounds of its loops are steady. -/
structure Regular (s : Stmt) : Prop where
  core : s.isCore = true
  steady : ∀ t ∈ s.nested, t.steady = true

/-- The statements of a block are regular. -/
structure RegularBlock (ss : List Stmt) : Prop where
  core : Stmt.allCore ss = true
  steady : ∀ t ∈ Stmt.nestedBlock ss, t.steady = true

theorem RegularBlock.cons {s : Stmt} {ss : List Stmt} (h : RegularBlock (s :: ss)) :
    Regular s ∧ RegularBlock ss := by
  obtain ⟨hcore, hsteady⟩ := h
  simp only [Stmt.allCore, Bool.and_eq_true] at hcore
  simp only [Stmt.nestedBlock, List.mem_append] at hsteady
  exact ⟨⟨hcore.1, fun t ht => hsteady t (.inl ht)⟩, hcore.2, fun t ht => hsteady t (.inr ht)⟩

theorem Regular.ifElse {site : Source.Site} {c : Source.Expr} {body orelse : List Stmt}
    (h : Regular (.ifElse site c body orelse)) :
    c.isCore = true ∧ RegularBlock body ∧ RegularBlock orelse := by
  obtain ⟨hcore, hsteady⟩ := h
  simp only [Stmt.isCore, Bool.and_eq_true] at hcore
  simp only [Stmt.nested, List.mem_cons, List.mem_append] at hsteady
  exact ⟨hcore.1.1, ⟨hcore.1.2, fun t ht => hsteady t (.inr (.inl ht))⟩, hcore.2,
    fun t ht => hsteady t (.inr (.inr ht))⟩

theorem Regular.whileLoop {site : Source.Site} {c : Source.Expr} {body orelse : List Stmt}
    (h : Regular (.whileLoop site c body orelse)) : c.isCore = true ∧ RegularBlock body := by
  obtain ⟨hcore, hsteady⟩ := h
  simp only [Stmt.isCore, Bool.and_eq_true] at hcore
  simp only [Stmt.nested, List.mem_cons, List.mem_append] at hsteady
  exact ⟨hcore.1.1, hcore.1.2, fun t ht => hsteady t (.inr (.inl ht))⟩

theorem Regular.forLoop {site : Source.Site} {target iter : Source.Expr} {body orelse : List Stmt}
    (h : Regular (.forLoop site target iter body orelse)) :
    (∃ es, iter.argumentsOf? "range" = some es ∧ ∀ e ∈ es, e.isCore = true) ∧
      RegularBlock body := by
  obtain ⟨hcore, hsteady⟩ := h
  simp only [Stmt.isCore, Bool.and_eq_true, Option.any_eq_true, List.all_eq_true] at hcore
  simp only [Stmt.nested, List.mem_cons, List.mem_append] at hsteady
  exact ⟨hcore.1.1.2, hcore.1.2, fun t ht => hsteady t (.inr (.inl ht))⟩

/-! ### One statement after the other -/

variable {M : Machine} {rounds : Nat}

theorem State.SameScope.scope {st st' : State} (h : st.SameScope st') :
    st'.env.scope = st.env.scope := by
  simp only [Environment.scope, h.frames]

/-- A statement adds to the scope that it stands in. -/
theorem Emits.exists_scope {st st' : State} {s : Stmt} {b : Block} (h : Emits policy st s b st') :
    ∃ inner, st'.env.scope = inner ++ st.env.scope := by
  cases h with
  | skipped r hsame => exact ⟨[], hsame.scope⟩
  | declare => exact ⟨[_], rfl⟩
  | ifElse _ _ hbody horelse => exact ⟨[], (hbody.keeps.pop.trans horelse.sameScope).scope⟩
  | whileLoop _ _ hbody => exact ⟨[], hbody.keeps.pop.scope⟩
  | @forLoop st₀ _ _ _ _ _ _ _ _ _ hbody =>
    exact ⟨[], ((st.push.keeps_declare _ _).trans hbody.keeps).pop.scope⟩
  | _ => exact ⟨[], rfl⟩

section

variable {st st' : State} {σ : Script.State} {r : Signal × Script.State} {m : Machine.Memory}

theorem settles_print {site site' : Source.Site} {function : Source.Expr}
    {arguments : List Source.Expr} {values : List Target.Expr}
    (hs : Regular (.expr site (.call site' function arguments [])))
    (hvalues : lowerArguments st.env policy arguments = .ok values)
    (hm : M.Related st.env.scope σ m)
    (h : Script.exec rounds σ (.expr site (.call site' function arguments [])) = some r) :
    M.Settles (fun n => M.execBlock n m [.print values]) (M.Ends st.env.scope r) := by
  have hcore := hs.core
  simp only [Stmt.isCore, Source.Expr.argumentsOf?] at hcore
  simp only [Script.exec, Script.arguments?, Option.bind_eq_bind, Option.bind_eq_some_iff,
    Option.ite_none_right_eq_some, Option.pure_def, Option.some.injEq] at h
  obtain ⟨vs, ⟨⟨hprint, -⟩, hvs⟩, rfl⟩ := h
  simp only [hprint, if_true, Option.any_some, List.all_eq_true] at hcore
  simp only [Machine.execBlock_singleton, Machine.exec]
  refine (Machine.yields_line hm.mirrors hcore hvalues hvs).settles.bind fun line hline => ?_
  refine (Machine.yields_ok ⟨rfl, hm.nodup, hm.scope, hm.holds, ?_⟩).settles
  simp only [hline, hm.output, Script.State.print, String.append_assoc]

theorem settles_declare {s : Stmt} {x : String} {e : Source.Expr} {t : Target.Expr}
    (hcore : s.isCore = true) (hs : binding? s = some (x, e))
    (hvalue : lower st.env policy .value e = .ok t) (hfresh : st.env.lookup x = none)
    (hm : M.Related st.env.scope σ m) (h : Script.exec rounds σ s = some r) :
    M.Settles (fun n => M.execBlock n m [.decl x t.type t])
      (M.Ends (st.declare x t.type).env.scope r) := by
  obtain ⟨v, hv, rfl⟩ := exec_of_binding? hs h
  obtain ⟨htype, ht⟩ :=
    Machine.preserves_lower hm.mirrors (isCore_of_binding? hcore hs) hvalue hv
  simp only [Machine.execBlock_singleton, Machine.exec]
  refine ht.settles.bind ?_
  rintro w ⟨hw, hholds⟩
  rw [htype, hw, Machine.convert_image hholds]
  rw [Environment.lookup_eq] at hfresh
  exact (Machine.yields_ok ⟨rfl, hm.declare hfresh hholds⟩).settles

theorem settles_store {s : Stmt} {x : String} {e : Source.Expr} {t : Target.Expr} {u : StaticType}
    (hcore : s.isCore = true) (hs : binding? s = some (x, e))
    (hvalue : lower st.env policy .value e = .ok t) (hbound : st.env.lookup x = some u)
    (hfits : t.type.assignable u = true) (hm : M.Related st.env.scope σ m)
    (h : Script.exec rounds σ s = some r) :
    M.Settles (fun n => M.execBlock n m [.assign x t]) (M.Ends st.env.scope r) := by
  obtain ⟨v, hv, rfl⟩ := exec_of_binding? hs h
  obtain ⟨htype, ht⟩ :=
    Machine.preserves_lower hm.mirrors (isCore_of_binding? hcore hs) hvalue hv
  rw [Environment.lookup_eq] at hbound
  obtain ⟨v₀, -, rfl, -, hfind⟩ := hm.find?_of_lookup hbound
  -- Neither value is a floating-point number, so the two have the same type.
  have hsame : v₀.type = v.type := by
    rw [htype] at hfits
    revert hfits
    cases v₀ <;> cases v <;> simp [Script.Value.type, StaticType.assignable, StaticType.widensTo]
  rw [hsame] at hbound
  simp only [Machine.execBlock_singleton, Machine.exec]
  refine (Machine.yields_assign hfind hsame ht).settles.bind ?_
  rintro m' ⟨hm', hholds⟩
  rw [hm']
  exact (Machine.yields_ok ⟨rfl, hm.assign hbound hholds⟩).settles

/-- A conditional, or what is left of one when its first branches have been passed over. -/
theorem settles_ifElse {site : Source.Site} {c : Source.Expr} {body orelse : List Stmt}
    {t : Target.Expr} {b : Block} {branches : List (Target.Expr × Block)} {last : Option Block}
    (hcore : c.isCore = true) (hc : lower st.env policy .condition c = .ok t)
    (hthen : M.Follows st.env.scope (Script.execBlock rounds · body) (M.execBlock · · b))
    (helse : Script.execBlock rounds σ orelse = some r →
      M.Settles (fun n => M.execBranches n m (M.execElse n m last) branches)
        (M.Ends st.env.scope r))
    (hm : M.Related st.env.scope σ m)
    (h : Script.exec rounds σ (.ifElse site c body orelse) = some r) :
    M.Settles (fun n => M.execBranches n m (M.execElse n m last) ((t, b) :: branches))
      (M.Ends st.env.scope r) := by
  simp only [Script.exec, Option.bind_eq_bind, Option.bind_eq_some_iff] at h
  obtain ⟨v, hv, h⟩ := h
  have htest := Machine.Tests.yields_test (Machine.preserves_lower hm.mirrors hcore hc hv)
  simp only [Machine.execBranches]
  refine htest.settles.bind fun d hd => ?_
  subst hd
  cases hd : v.truth with
  | true =>
    rw [hd, if_pos rfl] at h
    exact hthen.settles_inScope hm h
  | false =>
    rw [hd, if_neg Bool.false_ne_true] at h
    exact helse h

theorem settles_whileLoop {site : Source.Site} {c : Source.Expr} {body : List Stmt}
    {t : Target.Expr} {b : Block} (hcore : c.isCore = true)
    (hc : lower st.env policy .condition c = .ok t)
    (hbody : M.Follows st.env.scope (Script.execBlock rounds · body) (M.execBlock · · b))
    (hm : M.Related st.env.scope σ m)
    (h : Script.exec rounds σ (.whileLoop site c body []) = some r) :
    M.Settles (fun n => M.execBlock n m [.whileLoop t b]) (M.Ends st.env.scope r) := by
  simp only [Script.exec, Option.bind_eq_bind, Option.bind_eq_some_iff, Option.pure_def,
    Option.some.injEq] at h
  obtain ⟨σ', h, rfl⟩ := h
  have htest : ∀ s m d, M.Related st.env.scope s m →
      (Script.eval s.store c).map Script.Value.truth = some d → M.Tests m.cells t d := by
    intro s m d hm hd
    obtain ⟨v, hv, rfl⟩ := Option.map_eq_some_iff.1 hd
    exact Machine.preserves_lower hm.mirrors hcore hc hv
  simp only [Machine.execBlock_singleton, Machine.exec]
  refine (Machine.settles_while htest hbody hm h 0).bind fun m' hm' => ?_
  exact (Machine.yields_ok ⟨rfl, hm'⟩).settles

/-! ### Loops over a `range` -/

theorem stores_of_sets? {s : Stmt} {x : String} (h : Script.sets? s = some x) :
    s.stores x = true := by
  have hmentions : ∀ {e : Source.Expr}, e.asName = some x → e.mentions x = true :=
    fun he => Source.Expr.mentions_iff.2 (.inl he)
  unfold Script.sets? at h
  split at h
  · simp [Stmt.stores, hmentions h]
  · simp [Stmt.stores, hmentions h]
  · simp [Stmt.stores, hmentions h]
  · cases h

/-- A name in scope that nothing in a block stores into is not set by the block: the counter of a
loop in it is a new name. -/
theorem sets?_ne_of_emitted {ss : List Stmt} {b : Block} {y : String} {u : StaticType}
    (h : EmitsBlock policy st ss b st') (hrecords : st'.records = [])
    (hy : st.env.lookup y = some u)
    (hstores : ∀ t ∈ Stmt.nestedBlock ss, ∀ e, binding? t ≠ some (y, e)) :
    ∀ t ∈ Stmt.nestedBlock ss, Script.sets? t ≠ some y := by
  intro t ht hsets
  have hbinding := hstores t ht
  unfold Script.sets? at hsets
  split at hsets
  · simp [binding?, hsets] at hbinding
  · simp [binding?, hsets] at hbinding
  · -- The counter of an inner loop would have to be new where it is in scope.
    rcases h.emitted hrecords _ ht with ⟨_, _, _, _, hif⟩ | ⟨st₂, b₂, st₃, hin, hemits, hnil, -⟩
    · cases hif
    · cases hemits with
      | skipped _ _ hne => exact hne hnil
      | forLoop hhead hbody =>
        obtain rfl := Option.some.inj (hhead.target.symm.trans hsets)
        have hfresh := hhead.fresh
        rw [hin.lookup _ u hy] at hfresh
        cases hfresh
      | doc hs => cases hs
      | declare hs => cases hs
      | store hs => cases hs
      | imports hs => cases hs
  · cases hsets

section

variable {target iter : Source.Expr} {body : List Stmt} {range : Typing.Range} {head : LoopHead}
  {b : Block}

/-- The body of a loop changes neither its counter nor the value of its bound. -/
theorem eval_stop_of_execBlock {site : Source.Site} {s : Script.State} {w : Script.Value} {i : Int}
    (hs : (Stmt.forLoop site target iter body []).steady = true)
    (hhead : Counts policy st.env target iter body range head)
    (hbody : EmitsBlock policy (st.push.declare head.counter .integer) body b st')
    (hrecords : st'.records = [])
    (h : Script.execBlock rounds (s.set head.counter (.int i)) body = some r)
    (hw : Script.eval s.store range.stop = some w) :
    Script.eval r.2.store range.stop = some w := by
  simp only [Source.Stmt.steady, rangeStop?_of_range? hhead.range, Option.all_some,
    List.all_eq_true, Bool.not_eq_true'] at hs
  rw [← hw]
  refine Script.eval_congr _ fun y hy => ?_
  obtain ⟨u, hu⟩ := lookup_of_mentions hhead.stop hhead.stopCalls hy
  have hne : y ≠ head.counter := by
    rintro rfl
    rw [hhead.fresh] at hu
    cases hu
  have hin := hhead.within.lookup y u hu
  have hstores : ∀ t ∈ Stmt.nestedBlock body, ∀ e, binding? t ≠ some (y, e) := by
    intro t ht e hbinding
    have := hs t ht
    simp [Source.Stmt.storesInto, hbinding, hy] at this
  rw [Script.store_of_execBlock body (sets?_ne_of_emitted hbody hrecords hin hstores) h,
    Script.store_set_of_ne hne]

theorem store_counter_of_execBlock {s : Script.State}
    (hhead : Counts policy st.env target iter body range head)
    (h : Script.execBlock rounds s body = some r) :
    r.2.store head.counter = s.store head.counter := by
  refine Script.store_of_execBlock body (fun t ht hsets => ?_) h
  obtain ⟨s, hs, ht⟩ := Stmt.exists_of_mem_nestedBlock ht
  have hassigns := hhead.unassigned s hs
  simp only [Stmt.assignsTo, List.any_eq_false] at hassigns
  exact hassigns t ht (stores_of_sets? hsets)

/-- The arguments of the `range` that a loop goes over, and their values. -/
theorem Counts.arguments {es : List Source.Expr} {vs : List Script.Value}
    (hhead : Counts policy st.env target iter body range head)
    (hes : iter.argumentsOf? "range" = some es)
    (hvs : Script.arguments? store "range" iter = some vs) :
    Typing.rangeOfArguments? es = some range ∧ es.mapM (Script.eval store) = some vs := by
  have hrange := hhead.range
  unfold Source.Expr.argumentsOf? at hes
  split at hes
  · simp only [Option.ite_none_right_eq_some, Option.some.injEq] at hes
    obtain ⟨-, rfl⟩ := hes
    simp only [Script.arguments?, Option.ite_none_right_eq_some] at hvs
    simp only [Typing.range?, Option.ite_none_right_eq_some] at hrange
    exact ⟨hrange.2, hvs.2⟩
  · cases hes

/-- The first value of the counter. -/
theorem Counts.evaluates_start {v : Script.Value}
    (hhead : Counts policy st.env target iter body range head)
    (hcore : ∀ e, range.start = some e → e.isCore = true) (hm : M.Related st.env.scope σ m)
    (hv : range.start.elim (some (.int 0)) (Script.eval σ.store) = some v) :
    M.Evaluates m.cells head.start v := by
  have hlower := hhead.start
  cases hcase : range.start with
  | none =>
    rw [hcase] at hv hlower
    obtain rfl := Option.some.inj hv
    rw [← Except.ok.inj hlower]
    exact Machine.yields_image_int _
  | some e =>
    rw [hcase] at hv hlower
    exact (Machine.preserves_lower hm.mirrors (hcore e hcase) hlower hv).2

/-- The bound has its value in every round: the counter is not among its names. -/
theorem Counts.evaluates_stop {w : Script.Value} {i : Int}
    (hhead : Counts policy st.env target iter body range head) (hcore : range.stop.isCore = true)
    (hm : M.Counting st.env.scope head.counter i σ m)
    (hw : Script.eval σ.store range.stop = some w) : M.Evaluates m.cells head.stop w := by
  obtain ⟨-, rest, hcells, hrest⟩ := hm
  rw [hcells]
  have hmirrors := hrest.mirrors.cons hhead.fresh (.int i)
  exact (Machine.preserves_lower hmirrors hcore hhead.stop hw).2

theorem settles_forLoop {site : Source.Site} (hs : Regular (.forLoop site target iter body []))
    (hhead : Counts policy st.env target iter body range head)
    (hbody : EmitsBlock policy (st.push.declare head.counter .integer) body b st')
    (hrecords : st'.records = [])
    (hfollows : M.Follows (st.push.declare head.counter .integer).env.scope
      (Script.execBlock rounds · body) (M.execBlock · · b))
    (hm : M.Related st.env.scope σ m)
    (h : Script.exec rounds σ (.forLoop site target iter body []) = some r) :
    M.Settles (fun n => M.execBlock n m [.forLoop head.counter head.start head.stop head.step b])
      (M.Ends st.env.scope r) := by
  obtain ⟨⟨es, hes, hcores⟩, -⟩ := hs.forLoop
  simp only [Script.exec, hhead.target, Option.bind_eq_bind, Option.bind_some,
    Option.bind_eq_some_iff, Option.pure_def, Option.some.injEq] at h
  obtain ⟨vs, hvs, ks, hks, ns, hns, σ', h, rfl⟩ := h
  obtain ⟨hrange, hvs⟩ := hhead.arguments hes hvs
  obtain ⟨v, a, w, c, hv, ha, hw, hc, hstep, rfl⟩ :=
    rangeValues_of_arguments hrange (hhead.step ▸ hhead.stepFits) hvs hks hns
  obtain ⟨hstopMem, hstartMem⟩ := Typing.mem_of_rangeOfArguments? hrange
  rw [← hhead.step] at hstep h
  -- The counter is declared with the first value, which has to fit.
  simp only [Machine.execBlock_singleton, Machine.exec]
  have hstart := hhead.evaluates_start (fun e he => hcores e (hstartMem e he)) hm hv
  refine hstart.settles.bind ?_
  rintro x ⟨hx, -⟩
  rw [hx, Machine.convert_integer ha]
  refine (Machine.yields_int a).settles.bind ?_
  rintro y ⟨hy, hfits⟩
  rw [hy]
  have hcounting : M.Counting st.env.scope head.counter a σ
      (m.declare head.counter .integer (.int a)) := ⟨hfits, m.cells, rfl, hm⟩
  have hfresh : st.env.scope.lookup head.counter = none :=
    Environment.lookup_eq.symm.trans hhead.fresh
  refine (Machine.settles_for hfresh hstep hc
    (fun s m i => hhead.evaluates_stop (hcores _ hstopMem)) hfollows
    (fun s r hr => store_counter_of_execBlock hhead hr)
    (fun s i r hr => eval_stop_of_execBlock (hs.steady _ (Stmt.mem_nested_self _)) hhead hbody
      hrecords hr) hcounting hw h 0).bind ?_
  rintro m' ⟨cell, rest, hcells, hrest⟩
  -- Only the counter is forgotten behind the loop.
  have hleave : m'.leave m.cells.length = { m' with cells := rest } := by
    have hlength : rest.length = m.cells.length := hrest.length_cells.trans hm.length_cells.symm
    simp [Machine.Memory.leave, hcells, hlength]
  rw [hleave]
  exact (Machine.yields_ok ⟨rfl, hrest⟩).settles

end

/-! ### Every rule -/

/-- In the core language only `print` is called. -/
theorem callee_ne_user {site site' : Source.Site} {function : Source.Expr}
    {arguments : List Source.Expr} {keywords : List (String × Source.Expr)} {name : String}
    (hs : (Stmt.expr site (.call site' function arguments keywords)).isCore = true)
    (hf : st.env.globals.functions = []) : Typing.callee st.env function ≠ .ok (.user name) := by
  simp only [Stmt.isCore, Option.any_eq_true] at hs
  obtain ⟨es, hes, -⟩ := hs
  unfold Source.Expr.argumentsOf? at hes
  split at hes
  · rename_i heq
    simp only [Source.Expr.call.injEq] at heq
    obtain ⟨-, rfl, -⟩ := heq
    simp only [Option.ite_none_right_eq_some] at hes
    obtain ⟨site, rfl⟩ := Source.Expr.eq_name_of_asName hes.1
    have hnone : st.env.function? "print" = none := by
      simp [Environment.function?, Globals.function?, hf]
    simp only [Typing.callee, hnone, Option.isSome_none, Bool.false_eq_true, if_false]
    split
    · simp
    · simp [Typing.builtinCallee?, Checked.ofOption]
  · cases hes

mutual

/-- **What a statement does is done by the statements that are emitted for it.** -/
theorem Emits.settles {st st' : State} {s : Stmt} {b : Block} :
    Emits policy st s b st' → Regular s → st.env.globals.functions = [] → st'.records = [] →
      ∀ {σ : Script.State} {r : Signal × Script.State} {m : Machine.Memory},
        M.Related st.env.scope σ m → Script.exec rounds σ s = some r →
        M.Settles (fun n => M.execBlock n m b) (M.Ends st'.env.scope r)
  | .skipped _ _ hne _, _, _, hrecords, _, _, _, _, _ => absurd hrecords hne
  | .doc hdoc, hs, _, _, _, _, _, _, _ => by
    have := hs.core
    cases s <;> simp_all [Stmt.isDoc, Stmt.isCore]
  | .print _ hvalues _, hs, _, _, _, _, _, hm, h => settles_print hs hvalues hm h
  | .call hcallee _, hs, hf, _, _, _, _, _, _ => absurd hcallee (callee_ne_user hs.core hf)
  | .declare hs hvalue _ hfresh _, hr, _, _, _, _, _, hm, h =>
    settles_declare hr.core hs hvalue hfresh hm h
  | .store hs hvalue hbound hfits, hr, _, _, _, _, _, hm, h =>
    settles_store hr.core hs hvalue hbound hfits hm h
  | .ifElse hc _ hbody horelse, hs, hf, hrecords, _, _, _, hm, h => by
    obtain ⟨hcore, hthen, helse⟩ := hs.ifElse
    have hpop := hbody.keeps.pop
    have hafter := horelse.sameScope.toKeeps.records_eq_nil hrecords
    rw [(hpop.trans horelse.sameScope).scope]
    simp only [Machine.execBlock_singleton, Machine.exec]
    refine settles_ifElse hcore hc (hbody.settles hthen hf hafter) (fun hr => ?_) hm h
    rw [← hpop.scope]
    exact horelse.settles helse (hpop.functions.trans hf) hrecords (hpop.scope ▸ hm) hr
  | .whileLoop hc _ hbody, hs, hf, hrecords, _, _, _, hm, h => by
    obtain ⟨hcore, hloop⟩ := hs.whileLoop
    rw [hbody.keeps.pop.scope]
    exact settles_whileLoop hcore hc (hbody.settles hloop hf hrecords) hm h
  | .forLoop hhead hbody, hs, hf, hrecords, _, _, _, hm, h => by
    rw [((State.keeps_declare _ _ _).trans hbody.keeps).pop.scope]
    exact settles_forLoop hs hhead hbody hrecords (hbody.settles hs.forLoop.2 hf hrecords) hm h
  | .ret _ _, hs, _, _, _, _, _, _, _ => by cases hs.core
  | .brk, _, _, _, _, _, _, hm, h | .cont, _, _, _, _, _, _, hm, h => by
    obtain rfl := Option.some.inj h
    simp only [Machine.execBlock_singleton, Machine.exec]
    exact (Machine.yields_ok ⟨rfl, hm⟩).settles
  | .pass, _, _, _, _, _, _, hm, h => by
    obtain rfl := Option.some.inj h
    exact (Machine.yields_ok ⟨rfl, hm⟩).settles
  | .imports himport _, hs, _, _, _, _, _, _, _ => by
    have := hs.core
    cases s <;> simp_all [isImport, Stmt.isCore]

theorem EmitsBlock.settles {st st' : State} {ss : List Stmt} {b : Block} :
    EmitsBlock policy st ss b st' → RegularBlock ss → st.env.globals.functions = [] →
      st'.records = [] →
      M.Follows st.env.scope (Script.execBlock rounds · ss) (M.execBlock · · b)
  | .nil, _, _, _ => by
    intro σ r m hm h
    obtain rfl := Option.some.inj h
    exact (Machine.yields_ok ⟨[], rfl, hm⟩).settles
  | .cons hfirst hrest, hs, hf, hrecords => by
    intro σ r m hm h
    obtain ⟨hs, hss⟩ := hs.cons
    have hafter := hrest.keeps.records_eq_nil hrecords
    obtain ⟨inner, hinner⟩ := hfirst.exists_scope
    simp only [Script.execBlock, Option.bind_eq_bind, Option.bind_eq_some_iff] at h
    obtain ⟨⟨signal, σ₁⟩, hr, h⟩ := h
    simp only [Machine.execBlock_append]
    refine (hfirst.settles hs hf hafter hm hr).bind fun ⟨signal', m₁⟩ ⟨hsignal, hm₁⟩ => ?_
    obtain rfl : signal' = signal := hsignal
    cases signal' with
    | next =>
      refine (hrest.settles hss (hfirst.keeps.functions.trans hf) hrecords hm₁ h).imp ?_
      rintro q ⟨inner', hends⟩
      rw [hinner, ← List.append_assoc] at hends
      exact ⟨_, hends⟩
    | brk | cont =>
      obtain rfl := Option.some.inj h
      exact (Machine.yields_ok ⟨inner, rfl, hinner ▸ hm₁⟩).settles

theorem EmitsElse.settles {st st' : State} {ss : List Stmt}
    {branches : List (Target.Expr × Block)} {last : Option Block} :
    EmitsElse policy st ss branches last st' → RegularBlock ss → st.env.globals.functions = [] →
      st'.records = [] →
      ∀ {σ : Script.State} {r : Signal × Script.State} {m : Machine.Memory},
        M.Related st.env.scope σ m → Script.execBlock rounds σ ss = some r →
        M.Settles (fun n => M.execBranches n m (M.execElse n m last) branches)
          (M.Ends st.env.scope r)
  | .none, _, _, _, _, _, _, hm, h => by
    obtain rfl := Option.some.inj h
    exact (Machine.yields_ok ⟨rfl, hm⟩).settles
  | .elseIf hc _ hbody horelse, hs, hf, hrecords, _, _, _, hm, h => by
    obtain ⟨hcore, hthen, helse⟩ := hs.cons.1.ifElse
    have hpop := hbody.keeps.pop
    have hafter := horelse.sameScope.toKeeps.records_eq_nil hrecords
    rw [Script.execBlock_singleton] at h
    refine settles_ifElse hcore hc (hbody.settles hthen hf hafter) (fun hr => ?_) hm h
    rw [← hpop.scope]
    exact horelse.settles helse (hpop.functions.trans hf) hrecords (hpop.scope ▸ hm) hr
  | .block hbody, hs, hf, hrecords, _, _, _, hm, h => by
    simp only [Machine.execBranches, Machine.execElse]
    exact (hbody.settles hs hf hrecords).settles_inScope hm h

end

end

end Lowering

end StaticScript
