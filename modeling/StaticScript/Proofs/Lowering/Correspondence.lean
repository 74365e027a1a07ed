import Mathlib.Data.List.Forall2
import StaticScript.Proofs.Lowering.Alike
import StaticScript.Proofs.Lowering.Program

/-!
# Scripts that correspond

Two scripts correspond if their statements have the same shapes one by one (`Correspondence`).  The
numbers of the statements may differ, but not which of them are equal, since a number tells the
definition that is declared from others of its name.

Each pass over a script keeps to the correspondence: the functions and imports that are found
(`Correspondence.Globals.noteFunction`), the return types (`Correspondence.Globals.inferOne`), and
the items (`Correspondence.Same.emitItem`).  So corresponding statements become the same items, up
to the texts of what is left out, and leave out the same (`Correspondence.Same.emitItems`).
-/

namespace StaticScript

/-- Changes the texts of what is left out of an item. -/
def Target.Item.mapSource (f : String → String) : Item → Item
  | .function g => .function (g.mapSource f)
  | .stmt s => .stmt (s.mapSource f)

theorem Target.Item.mapSource_id (item : Item) : item.mapSource id = item := by
  cases item with
  | function g => rw [mapSource, Function.mapSource_id]
  | stmt s => rw [mapSource, Stmt.mapSource_id]

namespace Lowering

open Source (Site NodeId Stmt)

/-- How two scripts of one shape are compared. -/
structure Correspondence where
  /-- What the sites have in common. -/
  site : Site → Site
  /-- What the texts have in common, which depends on nothing else of the sites. -/
  text : String → String
  text_site : ∀ s, (site s).text = text s.text
  /-- Which numbers of statements correspond. -/
  ids : NodeId → NodeId → Prop
  ids_iff : ∀ {a b a' b'}, ids a b → ids a' b' → (a = a' ↔ b = b')

namespace Correspondence

variable (V : Correspondence)

/-- The statements have one shape, and their numbers correspond. -/
structure Stmts (d d' : Stmt) : Prop where
  shape : d'.mapSite V.site = d.mapSite V.site
  ids : V.ids d.site.id d'.site.id

/-- The same is imported and the same functions are known, defined by corresponding statements. -/
structure Globals (g g' : Globals) : Prop where
  alike : g.Alike Set.univ g'
  ids : ∀ name s s', g.function? name = some s → g'.function? name = some s' → V.ids s.id s'.id

variable {V} {policy : Policy} {d d' : Stmt} {g g' : StaticScript.Globals}

/-! ### Definitions -/

theorem isDefinition_mapSite (f : Site → Site) (s : Stmt) :
    (s.mapSite f).isDefinition = s.isDefinition := by
  cases s <;> rfl

theorem Stmts.isDefinition (h : V.Stmts d d') : d'.isDefinition = d.isDefinition := by
  rw [← isDefinition_mapSite V.site, h.shape, isDefinition_mapSite]

theorem Stmts.functionDef {site : Site} {x : String} {ps : List Source.Parameter}
    {returns : Option String} {ds : List Source.Expr} {body : List Stmt}
    (h : V.Stmts (.functionDef site x ps returns ds body) d') : ∃ site' ps' ds' body',
      d' = .functionDef site' x ps' returns ds' body' ∧
        body'.map (Stmt.mapSite V.site) = body.map (Stmt.mapSite V.site) := by
  have hshape := h.shape
  cases d' with
  | functionDef site' x' ps' returns' ds' body' =>
    simp only [Stmt.mapSite_functionDef, Stmt.functionDef.injEq] at hshape
    obtain ⟨-, rfl, -, rfl, -, hbody⟩ := hshape
    exact ⟨site', ps', ds', body', rfl, hbody⟩
  | _ => cases h.isDefinition

/-- Corresponding headers are refused for one reason, or have one signature up to the number. -/
theorem Stmts.signature (policy : Policy) (h : V.Stmts d d') :
    (∃ c, Typing.signature policy d = .error c ∧ Typing.signature policy d' = .error c) ∨
      ∃ s s', Typing.signature policy d = .ok s ∧ Typing.signature policy d' = .ok s' ∧
        s.Alike Set.univ s' ∧ V.ids s.id s'.id := by
  have hmap : Typing.signature policy (d'.mapSite V.site) = _ := Typing.signature_mapSite V.site d'
  rw [h.shape, Typing.signature_mapSite] at hmap
  have hid : ∀ {d : Stmt} {s}, Typing.signature policy d = .ok s → s.id = d.site.id := by
    intro d s hs
    obtain ⟨-, site, ps, returns, ds, b, rfl, hid⟩ := Typing.signature_eq_ok hs
    exact hid
  cases hs : Typing.signature policy d with
  | error c =>
    cases hs' : Typing.signature policy d' with
    | error c' =>
      rw [hs, hs'] at hmap
      exact .inl ⟨c, rfl, congrArg _ (Except.error.inj hmap).symm⟩
    | ok s' =>
      rw [hs, hs'] at hmap
      cases hmap
  | ok s =>
    cases hs' : Typing.signature policy d' with
    | error c' =>
      rw [hs, hs'] at hmap
      cases hmap
    | ok s' =>
      rw [hs, hs'] at hmap
      obtain ⟨hname, -, hparams, hreturns, hannotated⟩ := Signature.mk.inj (Except.ok.inj hmap)
      refine .inr ⟨s, s', rfl, rfl, ⟨hname.symm, hparams.symm, hannotated.symm, ?_⟩, ?_⟩
      · exact fun _ => hreturns.symm
      · rw [hid hs, hid hs']
        exact h.ids

/-! ### Finding the functions -/

theorem noteImport_mapSite (f : Site → Site) (env : Environment) (s : Stmt) :
    noteImport policy env (s.mapSite f) = noteImport policy env s := by
  cases s <;> rfl

/-- The same is imported in corresponding scripts. -/
theorem foldl_noteImport {body body' : List Stmt} (h : List.Forall₂ V.Stmts body body')
    (env : Environment) :
    body'.foldl (noteImport policy) env = body.foldl (noteImport policy) env := by
  induction h generalizing env with
  | nil => rfl
  | cons hd _ ih =>
    rw [List.foldl_cons, List.foldl_cons, ← noteImport_mapSite V.site, hd.shape,
      noteImport_mapSite]
    exact ih _

theorem Globals.declare (hg : V.Globals g g') {s s' : Signature} (hs : s.Alike Set.univ s')
    (hids : V.ids s.id s'.id) : V.Globals (g.declare s) (g'.declare s') := by
  refine ⟨hg.alike.declare hs, fun name t t' ht ht' => ?_⟩
  rw [Globals.function?_declare] at ht ht'
  rw [hs.name] at ht'
  by_cases hname : s.name = name
  · rw [if_pos hname, Option.some.injEq] at ht ht'
    exact ht ▸ ht' ▸ hids
  · rw [if_neg hname] at ht ht'
    exact hg.ids name t t' ht ht'

/-- The same functions are found in corresponding scripts. -/
theorem Globals.noteFunction (hg : V.Globals g g') (hd : V.Stmts d d') :
    V.Globals (noteFunction policy g d) (noteFunction policy g' d') := by
  rcases hd.signature policy with ⟨c, hs, hs'⟩ | ⟨s, s', hs, hs', halike, hids⟩
  · rw [noteFunction_of_error hs, noteFunction_of_error hs']
    exact hg
  · rw [noteFunction_of_signature hs, noteFunction_of_signature hs', halike.name]
    rcases hg.alike.functions s.name with ⟨hx, hx'⟩ | ⟨t, t', hx, hx', -⟩
    · rw [if_pos hx, if_pos hx']
      exact hg.declare halike hids
    · rw [hx, hx', if_neg (Option.some_ne_none t), if_neg (Option.some_ne_none t')]
      exact hg

theorem globals_hoist {body body' : List Stmt} (h : List.Forall₂ V.Stmts body body') :
    V.Globals (hoist policy body) (hoist policy body') := by
  unfold hoist
  rw [foldl_noteImport h]
  refine List.rel_foldl (fun _ _ hg _ _ hd => hg.noteFunction hd) ⟨.refl _ _, ?_⟩ h
  intro name s s' hs
  rw [Globals.function?_congr (functions_foldl_noteImport body .empty)] at hs
  cases hs

/-! ### Finding return types -/

theorem declared?_of_not_isDefinition (hd : d.isDefinition = false) (g : StaticScript.Globals) :
    Lowering.declared? g d = none := by
  cases d with
  | functionDef => cases hd
  | _ => rfl

/-- Corresponding statements define corresponding functions, or none. -/
theorem Globals.declared? (hg : V.Globals g g') (hd : V.Stmts d d') :
    (declared? g d = none ∧ declared? g' d' = none) ∨
      ∃ s body s' body', declared? g d = some (s, body) ∧ declared? g' d' = some (s', body') ∧
        s.Alike Set.univ s' ∧
        body'.map (Stmt.mapSite V.site) = body.map (Stmt.mapSite V.site) := by
  by_cases hdef : d.isDefinition = true
  · cases d with
    | functionDef site x ps returns ds body =>
      have hids := hd.ids
      obtain ⟨site', ps', ds', body', rfl, hbody⟩ := hd.functionDef
      unfold Lowering.declared?
      rcases hg.alike.functions x with ⟨hx, hx'⟩ | ⟨s, s', hx, hx', halike⟩
      · exact .inl ⟨by simp only [hx], by simp only [hx']⟩
      · have hiff : s.id = site.id ↔ s'.id = site'.id := V.ids_iff (hg.ids x s s' hx hx') hids
        simp only [hx, hx']
        by_cases hid : s.id = site.id
        · rw [if_pos hid, if_pos (hiff.1 hid)]
          exact .inr ⟨s, body, s', body', rfl, rfl, halike, hbody⟩
        · rw [if_neg hid, if_neg fun h => hid (hiff.2 h)]
          exact .inl ⟨rfl, rfl⟩
    | _ => cases hdef
  · have hdef := Bool.eq_false_iff.2 hdef
    exact .inl ⟨declared?_of_not_isDefinition hdef g,
      declared?_of_not_isDefinition (hd.isDefinition.trans hdef) g'⟩

theorem Globals.setReturns (hg : V.Globals g g') (name : String) (type : StaticType) :
    V.Globals (g.setReturns name type) (g'.setReturns name type) := by
  refine ⟨hg.alike.setReturns name type, fun other t t' ht ht' => ?_⟩
  rw [Globals.function?_setReturns, Option.map_eq_some_iff] at ht ht'
  obtain ⟨s, hs, rfl⟩ := ht
  obtain ⟨s', hs', rfl⟩ := ht'
  have hid : ∀ s : Signature,
      (if s.name = name then { s with returns := type } else s).id = s.id := by
    intro s
    split <;> rfl
  rw [hid, hid]
  exact hg.ids other s s' hs hs'

variable (V) in
/-- Compares with a third run that has left out nothing before. -/
def comparison (before : List SkipRecord) : Comparison :=
  ⟨Set.univ, V.site, V.text, V.text_site, before, []⟩

/-- Corresponding bodies become the same, and the same is left out of them. -/
theorem emitFunction_congr (policy : Policy) (hg : g.Alike Set.univ g') {s s' : Signature}
    (hs : s.Alike Set.univ s') {body body' : List Stmt}
    (hbody : body'.map (Stmt.mapSite V.site) = body.map (Stmt.mapSite V.site))
    (records records' : List SkipRecord) :
    let r := emitFunction policy g records s body
    let r' := emitFunction policy g' records' s' body'
    r'.1.mapSource V.text = r.1.mapSource V.text ∧ ∃ new new', r.2 = records ++ new ∧
      r'.2 = records' ++ new' ∧
      new'.map (SkipRecord.mapSite V.site) = new.map (SkipRecord.mapSite V.site) := by
  obtain ⟨hfunction, new, hnew, hmap⟩ :=
    Lowering.emitFunction_congr (K := V.comparison records) policy hg hs (fun _ => trivial)
      fun d (_ : d ∈ body) _ _ => trivial
  obtain ⟨hfunction', new', hnew', hmap'⟩ :=
    Lowering.emitFunction_congr (K := V.comparison records') policy (.refl _ g') (.refl _ s')
      (fun _ => trivial) fun d (_ : d ∈ body') _ _ => trivial
  -- the third run is the same for both
  have hthird : body'.map (Stmt.mapSite (V.comparison records').site) =
      body.map (Stmt.mapSite (V.comparison records).site) := hbody
  rw [hthird] at hfunction' hmap'
  exact ⟨hfunction'.symm.trans hfunction, new, new', hnew, hnew',
    List.append_cancel_left (hmap'.symm.trans hmap)⟩

/-- Corresponding functions return the same. -/
theorem returns_emitFunction (hg : g.Alike Set.univ g') {s s' : Signature}
    (hs : s.Alike Set.univ s') {body body' : List Stmt}
    (hbody : body'.map (Stmt.mapSite V.site) = body.map (Stmt.mapSite V.site)) :
    (emitFunction policy g' [] s' body').1.returns = (emitFunction policy g [] s body).1.returns :=
  congrArg (·.returns) (emitFunction_congr policy hg hs hbody [] []).1

theorem Globals.isPending (hg : V.Globals g g') (hd : V.Stmts d d') :
    isPending g' d' = isPending g d := by
  unfold Lowering.isPending
  rcases hg.declared? hd with ⟨hs, hs'⟩ | ⟨s, body, s', body', hs, hs', halike, -⟩
  · rw [hs, hs']
  · simp only [hs, hs', Option.any_some, halike.annotated]

/-- One return type found anew is the same in corresponding scripts. -/
theorem Globals.inferOne (policy : Policy) (hg : V.Globals g g') (hd : V.Stmts d d')
    (changed : Bool) :
    V.Globals (inferOne policy (g, changed) d).1 (inferOne policy (g', changed) d').1 ∧
      (inferOne policy (g', changed) d').2 = (inferOne policy (g, changed) d).2 := by
  unfold Lowering.inferOne
  rcases hg.declared? hd with ⟨hs, hs'⟩ | ⟨s, body, s', body', hs, hs', halike, hbody⟩
  · simp only [hs, hs']
    exact ⟨hg, trivial⟩
  · simp only [hs, hs', returns_emitFunction hg.alike halike hbody, halike.name,
      halike.returns trivial]
    split
    · exact ⟨hg, rfl⟩
    · exact ⟨hg.setReturns _ _, rfl⟩

theorem Globals.foldl_inferOne (policy : Policy) {pending pending' : List Stmt}
    (h : List.Forall₂ V.Stmts pending pending') (hg : V.Globals g g') (changed : Bool) :
    V.Globals (pending.foldl (Lowering.inferOne policy) (g, changed)).1
        (pending'.foldl (Lowering.inferOne policy) (g', changed)).1 ∧
      (pending'.foldl (Lowering.inferOne policy) (g', changed)).2 =
        (pending.foldl (Lowering.inferOne policy) (g, changed)).2 := by
  induction h generalizing g g' changed with
  | nil => exact ⟨hg, rfl⟩
  | @cons d d' _ _ hd _ ih =>
    obtain ⟨hg₁, hchanged⟩ := hg.inferOne policy hd changed
    rw [List.foldl_cons, List.foldl_cons]
    generalize Lowering.inferOne policy (g, changed) d = r at hg₁ hchanged
    generalize Lowering.inferOne policy (g', changed) d' = r' at hg₁ hchanged
    obtain ⟨g₁, changed₁⟩ := r
    obtain ⟨g₁', changed₁'⟩ := r'
    obtain rfl : changed₁' = changed₁ := hchanged
    exact ih hg₁ changed₁'

theorem Globals.inferRounds {pending pending' : List Stmt}
    (h : List.Forall₂ V.Stmts pending pending') (rounds : Nat) (hg : V.Globals g g') :
    V.Globals (inferRounds policy pending rounds g) (inferRounds policy pending' rounds g') := by
  induction rounds generalizing g g' with
  | zero => exact hg
  | succ rounds ih =>
    obtain ⟨hg₁, hchanged⟩ := hg.foldl_inferOne policy h false
    unfold Lowering.inferRounds
    generalize pending.foldl (Lowering.inferOne policy) (g, false) = r at hg₁ hchanged
    generalize pending'.foldl (Lowering.inferOne policy) (g', false) = r' at hg₁ hchanged
    obtain ⟨g₁, changed⟩ := r
    obtain ⟨g₁', changed'⟩ := r'
    obtain rfl : changed' = changed := hchanged
    cases changed' with
    | true => exact ih hg₁
    | false => exact hg₁

/-- **The functions of corresponding scripts correspond**, with all return types. -/
theorem globals_programGlobals {body body' : List Stmt} (h : List.Forall₂ V.Stmts body body') :
    V.Globals (programGlobals policy body) (programGlobals policy body') := by
  have hpending : List.Forall₂ V.Stmts (body.filter (isPending (hoist policy body)))
      (body'.filter (isPending (hoist policy body'))) := by
    refine List.rel_filter ?_ h
    intro d d' hd
    exact Bool.eq_iff_iff.1 ((globals_hoist h).isPending hd).symm
  unfold programGlobals inferReturns
  dsimp only
  rw [← hpending.length_eq]
  exact (globals_hoist h).inferRounds hpending _

/-! ### Items -/

/-- Why a definition that is not the declared one of its name is left out. -/
def refusal (policy : Policy) (d : Stmt) : Category :=
  match Typing.signature policy d with
  | .error c => c
  | .ok _ => .unsupported

theorem isFailure_refusal (policy : Policy) (d : Stmt) : (refusal policy d).isFailure = true := by
  unfold refusal
  split
  · exact Typing.proper_signature _ _ _ ‹_›
  · rfl

theorem refusal_mapSite (f : Site → Site) (d : Stmt) :
    refusal policy (d.mapSite f) = refusal policy d := by
  unfold refusal
  rw [Typing.signature_mapSite]
  cases Typing.signature policy d with
  | error c => rfl
  | ok s => rfl

/-- What stands for a statement that declares no function, whatever its number. -/
def emitUndeclared (policy : Policy) (st : State) (d : Stmt) : Block × State :=
  if d.isDefinition then st.skip d (refusal policy d) else emitStmt policy true st d

theorem settle_of_isFailure {level : Bool} {st : State} {c : Category}
    (h : Typing.classify st.env policy level st.returns d = c) (hc : c.isFailure = true)
    (lowered : Unit → Checked Block × State) :
    settle policy level st d lowered = st.skip d c := by
  unfold settle
  rw [h]
  split
  · cases hc
  · cases hc
  · rfl

/-- A definition that is not declared is left out. -/
theorem emitStmt_of_undeclared {st : State} (hst : st.env.globals.functions = g.functions)
    (hd : Lowering.declared? g d = none) :
    emitStmt policy true st d = emitUndeclared policy st d := by
  cases d with
  | functionDef site x ps returns ds body =>
    show emitStmt policy true st _ = st.skip _ (refusal policy _)
    refine settle_of_isFailure ?_ (isFailure_refusal policy _) _
    unfold Typing.classify refusal
    cases hs : Typing.signature policy (.functionDef site x ps returns ds body) with
    | error c =>
      simp only [Typing.checkStmt, hs]
      rfl
    | ok s =>
      obtain ⟨-, site', ps', returns', ds', body', heq, -⟩ := Typing.signature_eq_ok hs
      obtain rfl : x = s.name := (Stmt.functionDef.inj heq).2.1
      simp only [Lowering.declared?] at hd
      cases hf : g.function? s.name with
      | none =>
        simp only [Typing.checkStmt, hs, Environment.function?, Globals.function?_congr hst,
          Bool.not_true, Bool.false_eq_true, if_false, bind, Except.bind, hf]
        rfl
      | some t =>
        -- The name stands for another definition, so this one is refused like a name that is taken.
        have hid : t.id ≠ site.id := by
          intro hid
          simp [hf, hid] at hd
        simp only [Typing.checkStmt, hs, Environment.function?, Globals.function?_congr hst,
          Bool.not_true, Bool.false_eq_true, if_false, bind, Except.bind, hf, if_neg hid]
        rfl
  | _ => rfl

theorem same_emitUndeclared {before : List SkipRecord} {st st₀ : State}
    (h : (V.comparison before).Alike st st₀) (d : Stmt) :
    (V.comparison before).Same (Target.Stmt.mapSourceBlock V.text) (emitUndeclared policy st d)
      (emitUndeclared policy st₀ (d.mapSite V.site)) := by
  unfold emitUndeclared
  rw [isDefinition_mapSite, refusal_mapSite]
  by_cases hdef : d.isDefinition = true
  · rw [if_pos hdef, if_pos hdef]
    exact ⟨(h.skip d _).1, (h.skip d _).2⟩
  · rw [if_neg hdef, if_neg hdef]
    exact same_settle h (fun _ => Bool.eq_false_iff.2 hdef) (fun _ _ => trivial)
      (lowerStmt_congr h d fun _ _ => trivial)

variable (V) in
/-- In both states the same is known, and the same was left out since `before` and `before'`. -/
structure Same (g g' : StaticScript.Globals) (before before' : List SkipRecord)
    (st st' : State) : Prop where
  third : ∃ st₀, (V.comparison before).Alike st st₀ ∧ (V.comparison before').Alike st' st₀
  functions : st.env.globals.functions = g.functions
  functions' : st'.env.globals.functions = g'.functions

theorem map_mapSource_stmt (f : String → String) (b : Block) :
    (b.map Target.Item.stmt).map (Target.Item.mapSource f) =
      (Target.Stmt.mapSourceBlock f b).map .stmt := by
  simp [Target.Stmt.mapSourceBlock_eq, Target.Item.mapSource, Function.comp_def]

variable {before before' : List SkipRecord} {st st' : State}

theorem Same.emitFunction (h : V.Same g g' before before' st st') (hg : V.Globals g g')
    {s s' : Signature} (hs : s.Alike Set.univ s') {body body' : List Stmt}
    (hbody : body'.map (Stmt.mapSite V.site) = body.map (Stmt.mapSite V.site)) :
    V.Same g g' before before'
      { st with records := (emitFunction policy g st.records s body).2 }
      { st' with records := (emitFunction policy g' st'.records s' body').2 } := by
  obtain ⟨-, new, new', hnew, hnew', hmap⟩ :=
    emitFunction_congr policy hg.alike hs hbody st.records st'.records
  obtain ⟨st₀, h₀, h₀'⟩ := h.third
  refine ⟨⟨{ st₀ with records := st₀.records ++ new.map (SkipRecord.mapSite V.site) }, ?_, ?_⟩,
    h.functions, h.functions'⟩
  · rw [hnew]
    exact h₀.append new
  · rw [hnew', ← hmap]
    exact h₀'.append new'

theorem Same.emitStmt (policy : Policy) (h : V.Same g g' before before' st st') (hd : V.Stmts d d')
    (hs : Lowering.declared? g d = none) (hs' : Lowering.declared? g' d' = none) :
    Target.Stmt.mapSourceBlock V.text (emitStmt policy true st' d').1 =
        Target.Stmt.mapSourceBlock V.text (emitStmt policy true st d).1 ∧
      V.Same g g' before before' (emitStmt policy true st d).2 (emitStmt policy true st' d').2 := by
  have hfunctions : ∀ (st : State) (d : Stmt),
      (Lowering.emitStmt policy true st d).2.env.globals.functions = st.env.globals.functions :=
    fun st d => (emits_emitStmt true st d).keeps.functions
  obtain ⟨st₀, h₀, h₀'⟩ := h.third
  -- Both statements are compared with what their shape becomes in the third run.
  have hfirst : (V.comparison before).Same _ (emitUndeclared policy st d) _ :=
    same_emitUndeclared h₀ d
  have hsecond : (V.comparison before').Same _ (emitUndeclared policy st' d') _ :=
    same_emitUndeclared h₀' d'
  rw [hd.shape] at hsecond
  rw [← emitStmt_of_undeclared h.functions hs] at hfirst
  rw [← emitStmt_of_undeclared h.functions' hs'] at hsecond
  exact ⟨hsecond.result.symm.trans hfirst.result, ⟨_, hfirst.state, hsecond.state⟩,
    (hfunctions st d).trans h.functions, (hfunctions st' d').trans h.functions'⟩

/-- **Corresponding statements become the same items.** -/
theorem Same.emitItem (policy : Policy) (h : V.Same g g' before before' st st')
    (hg : V.Globals g g') (hd : V.Stmts d d') :
    (emitItem policy g' st' d').1.map (Target.Item.mapSource V.text) =
        (emitItem policy g st d).1.map (Target.Item.mapSource V.text) ∧
      V.Same g g' before before' (emitItem policy g st d).2 (emitItem policy g' st' d').2 := by
  unfold Lowering.emitItem
  rcases hg.declared? hd with ⟨hs, hs'⟩ | ⟨s, body, s', body', hs, hs', halike, hbody⟩
  · obtain ⟨hblock, hstate⟩ := h.emitStmt policy hd hs hs'
    simp only [hs, hs', map_mapSource_stmt, hblock]
    exact ⟨trivial, hstate⟩
  · simp only [hs, hs', List.map_cons, List.map_nil, Target.Item.mapSource]
    refine ⟨?_, h.emitFunction hg halike hbody⟩
    rw [(emitFunction_congr policy hg.alike halike hbody st.records st'.records).1]

/-- **Corresponding scripts become the same items**, and leave out the same. -/
theorem Same.emitItems {body body' : List Stmt} (hbody : List.Forall₂ V.Stmts body body')
    (hg : V.Globals g g') (h : V.Same g g' before before' st st') :
    (emitItems policy g' st' body').1.map (Target.Item.mapSource V.text) =
        (emitItems policy g st body).1.map (Target.Item.mapSource V.text) ∧
      V.Same g g' before before' (emitItems policy g st body).2
        (emitItems policy g' st' body').2 := by
  induction hbody generalizing st st' with
  | nil => exact ⟨rfl, h⟩
  | cons hd _ ih =>
    obtain ⟨hfirst, hstate⟩ := h.emitItem policy hg hd
    obtain ⟨hrest, hstop⟩ := ih hstate
    simp only [Lowering.emitItems, List.map_append, hfirst, hrest]
    exact ⟨trivial, hstop⟩

/-! ### The start, and what was left out -/

theorem Globals.same_mainStart (hg : V.Globals g g') :
    V.Same g g' [] [] (mainStart g) (mainStart g') := by
  have hstart : Environment.Alike Set.univ (mainStart g).env (mainStart g').env :=
    ⟨fun _ => rfl, hg.alike.functions, rfl, rfl⟩
  exact ⟨⟨mainStart g', ⟨hstart, rfl, [], rfl, rfl⟩,
    ⟨⟨fun _ => rfl, .refl _ _⟩, rfl, [], rfl, rfl⟩⟩, rfl, rfl⟩

/-- What was left out before does not matter for what follows. -/
theorem Same.restart (h : V.Same g g' before before' st st') (records records' : List SkipRecord) :
    V.Same g g' records records' { st with records } { st' with records := records' } := by
  obtain ⟨st₀, h₀, h₀'⟩ := h.third
  exact ⟨⟨{ st₀ with records := [] }, ⟨h₀.env, h₀.returns, [], (List.append_nil _).symm, rfl⟩,
    ⟨h₀'.env, h₀'.returns, [], (List.append_nil _).symm, rfl⟩⟩, h.functions, h.functions'⟩

theorem Same.records (h : V.Same g g' before before' st st') :
    ∃ new new', st.records = before ++ new ∧ st'.records = before' ++ new' ∧
      new'.map (SkipRecord.mapSite V.site) = new.map (SkipRecord.mapSite V.site) := by
  obtain ⟨st₀, h₀, h₀'⟩ := h.third
  obtain ⟨new, hnew, hthird⟩ := h₀.records
  obtain ⟨new', hnew', hthird'⟩ := h₀'.records
  exact ⟨new, new', hnew, hnew', List.append_cancel_left (hthird'.symm.trans hthird)⟩

/-! ### Numbers -/

/-- Compares statements by their places, if they are all numbered differently. -/
def byPlace (ids ids' : List NodeId) (h : ids.Nodup) (h' : ids'.Nodup) : Correspondence where
  site := Site.unnumbered
  text := id
  text_site _ := rfl
  ids a b := ∃ k, ids[k]? = some a ∧ ids'[k]? = some b
  ids_iff := by
    rintro a b a' b' ⟨k, hk, hk'⟩ ⟨l, hl, hl'⟩
    constructor
    · rintro rfl
      obtain ⟨hlt, -⟩ := List.getElem?_eq_some_iff.1 hk
      obtain rfl := (List.getElem?_inj hlt h).1 (hk.trans hl.symm)
      exact Option.some.inj (hk'.symm.trans hl')
    · rintro rfl
      obtain ⟨hlt, -⟩ := List.getElem?_eq_some_iff.1 hk'
      obtain rfl := (List.getElem?_inj hlt h').1 (hk'.trans hl'.symm)
      exact Option.some.inj (hk.symm.trans hl)

/-- Scripts of one shape correspond if no two statements of either have one number. -/
theorem forall₂_byPlace {body body' : List Stmt}
    (hshape : body'.map (Stmt.mapSite Site.unnumbered) = body.map (Stmt.mapSite Site.unnumbered))
    (h : (body.map fun s => s.site.id).Nodup) (h' : (body'.map fun s => s.site.id).Nodup) :
    List.Forall₂ (byPlace _ _ h h').Stmts body body' := by
  have hlength : body.length = body'.length := by simpa using (congrArg List.length hshape).symm
  refine List.forall₂_of_length_eq_of_get hlength fun k hk hk' => ⟨?_, k, ?_, ?_⟩
  · have hplace := congrArg (·[k]?) hshape
    simpa [byPlace, hk, hk'] using hplace
  · simp [hk]
  · simp [hk']

end Correspondence

end Lowering

end StaticScript
