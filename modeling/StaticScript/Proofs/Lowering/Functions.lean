import StaticScript.Lowering.Program
import StaticScript.Proofs.Lowering.Emission
import StaticScript.Proofs.Lowering.Nodes

/-!
# The functions of a script

The signatures of a script are read from the headers of its definitions, and all that finding the
return types changes in them is the return type.  So a property of signatures that no return type
can break holds of all of them if it holds of what is read from headers
(`forall_functions_programGlobals`).  In particular the defaults are literals that fit their
parameters, and every function that is known is defined in the script
(`exists_declared?_of_function?`), by one statement only if no two statements have one number
(`id_eq_of_declared?`).
-/

namespace StaticScript

theorem Globals.LiteralDefaults.congr {g g' : Globals} (hg : g.LiteralDefaults)
    (h : g'.functions = g.functions) : g'.LiteralDefaults := by
  unfold LiteralDefaults
  rw [h]
  exact hg

/-- The default of the parameter, if it has one, is a literal that the parameter takes. -/
def SignatureParam.SoundDefault (p : SignatureParam) : Prop :=
  ∀ v, p.default = some v →
    v.isLiteral = true ∧ ∃ t, p.type = .concrete t ∧ v.type.assignable t = true

/-! ### Headers -/

namespace Typing

theorem isLiteral_of_literal? {e : Source.Expr} {v : Target.Expr} (h : literal? e = some v) :
    v.isLiteral = true := by
  unfold literal? at h
  split at h <;> simp only [Option.some.injEq, reduceCtorEq] at h <;> subst h <;> rfl

theorem isLiteral_of_defaultValue {e : Option Source.Expr} {v : Target.Expr}
    (h : defaultValue e = .ok (some v)) : v.isLiteral = true := by
  cases e with
  | none => simp [defaultValue] at h
  | some e =>
    simp only [defaultValue, Checked.bind_eq_ok, Checked.ofOption_eq_ok] at h
    obtain ⟨value, hvalue, h⟩ := h
    have hv : value = v := by
      split at h
      · simp only [Checked.bind_eq_ok, Checked.pure_eq_ok, Option.some.injEq] at h
        exact h.choose_spec.2
      · simpa using h
    exact hv ▸ isLiteral_of_literal? hvalue

theorem assignable_of_hintedType {hint : String} {v : Target.Expr} {t : StaticType}
    (h : hintedType hint (some v) = .ok t) : v.type.assignable t = true := by
  simp only [hintedType, Option.any_some, Bool.not_eq_true'] at h
  split at h
  · cases h
  · split at h
    · cases h
    · rename_i hfits
      obtain rfl := Except.ok.inj h
      simpa using hfits

/-- How a parameter of a signature is read from one of the header. -/
inductive ReadFrom (q : Source.Parameter) : SignatureParam → Prop
  | hinted {hint : String} {default : Option Target.Expr} {t : StaticType}
      (hdefault : defaultValue q.default = .ok default) (htype : hintedType hint default = .ok t) :
      ReadFrom q ⟨q.name, .concrete t, default⟩
  | inferred {v : Target.Expr} (hdefault : defaultValue q.default = .ok (some v)) :
      ReadFrom q ⟨q.name, .concrete v.type, some v⟩
  | generic {n : Nat} (hdefault : defaultValue q.default = .ok none) :
      ReadFrom q ⟨q.name, .generic ("T" ++ toString n), none⟩

theorem readFrom_of_signatureParams {policy : GenericPolicy} {n : Nat}
    {ps : List Source.Parameter} {params : List SignatureParam}
    (h : signatureParams policy n ps = .ok params) : ∀ p ∈ params, ∃ q ∈ ps, ReadFrom q p := by
  induction ps generalizing n params with
  | nil =>
    obtain rfl : [] = params := by simpa [signatureParams] using h
    simp
  | cons q ps ih =>
    simp only [signatureParams, Checked.guard_eq_ok, Checked.bind_eq_ok] at h
    obtain ⟨-, default, hdefault, h⟩ := h
    have hcons : ∀ {m p rest}, ReadFrom q p → signatureParams policy m ps = .ok rest →
        ∀ p' ∈ p :: rest, ∃ q' ∈ q :: ps, ReadFrom q' p' := by
      intro m p rest hp hrest
      refine List.forall_mem_cons.2 ⟨⟨q, List.mem_cons_self, hp⟩, fun p' hp' => ?_⟩
      obtain ⟨q', hq', hread⟩ := ih hrest p' hp'
      exact ⟨q', List.mem_cons_of_mem _ hq', hread⟩
    split at h
    · simp only [Checked.bind_eq_ok, Checked.pure_eq_ok] at h
      obtain ⟨t, ht, rest, hrest, rfl⟩ := h
      exact hcons (.hinted hdefault ht) hrest
    · simp only [Checked.bind_eq_ok, Checked.pure_eq_ok] at h
      obtain ⟨rest, hrest, rfl⟩ := h
      exact hcons (.inferred hdefault) hrest
    · split at h
      · simp only [Checked.bind_eq_ok, Checked.pure_eq_ok] at h
        obtain ⟨rest, hrest, rfl⟩ := h
        exact hcons (.generic hdefault) hrest
      · cases h

/-- The default of a parameter is read from the header, and the parameter takes it. -/
theorem default_of_signatureParams {policy : GenericPolicy} {n : Nat} {ps : List Source.Parameter}
    {params : List SignatureParam} (h : signatureParams policy n ps = .ok params) :
    ∀ p ∈ params, ∃ e, defaultValue e = .ok p.default ∧
      ∀ v, p.default = some v → ∃ t, p.type = .concrete t ∧ v.type.assignable t = true := by
  intro p hp
  obtain ⟨q, -, hread⟩ := readFrom_of_signatureParams h p hp
  refine ⟨q.default, ?_⟩
  cases hread with
  | hinted hdefault htype =>
    refine ⟨hdefault, ?_⟩
    rintro v rfl
    exact ⟨_, rfl, assignable_of_hintedType htype⟩
  | inferred hdefault =>
    refine ⟨hdefault, ?_⟩
    rintro v ⟨⟩
    exact ⟨_, rfl, by simp [StaticType.assignable]⟩
  | generic hdefault => exact ⟨hdefault, by simp⟩

theorem soundDefault_of_signatureParams {policy : GenericPolicy} {n : Nat}
    {ps : List Source.Parameter} {params : List SignatureParam}
    (h : signatureParams policy n ps = .ok params) : ∀ p ∈ params, p.SoundDefault := by
  intro p hp v hv
  obtain ⟨e, hdefault, hfits⟩ := default_of_signatureParams h p hp
  exact ⟨isLiteral_of_defaultValue (hv ▸ hdefault), hfits v hv⟩

/-- A signature is that of a definition, with its name and its number. -/
theorem signature_eq_ok {policy : Policy} {d : Source.Stmt} {s : Signature}
    (h : signature policy d = .ok s) :
    (∀ p ∈ s.params, p.SoundDefault) ∧ ∃ site params returns decorators body,
      d = .functionDef site s.name params returns decorators body ∧ s.id = site.id := by
  cases d with
  | functionDef site name parameters returns decorators body =>
    simp only [signature, Checked.guard_eq_ok, Checked.bind_eq_ok, Checked.pure_eq_ok] at h
    obtain ⟨-, params, hparams, ⟨type, annotated⟩, -, rfl⟩ := h
    exact ⟨soundDefault_of_signatureParams hparams, site, _, _, _, _, rfl, rfl⟩
  | _ => simp [signature] at h

end Typing

namespace Lowering

open Source (Stmt)

variable {policy : Policy}

/-! ### Finding the functions -/

theorem functions_noteImport (env : Environment) (s : Stmt) :
    (noteImport policy env s).globals.functions = env.globals.functions := by
  unfold noteImport
  split
  · split
    · simp only [lowerStmt]
      rfl
    · rfl
  · split
    · simp only [lowerStmt]
      exact (Globals.grows_importFunctions _ _).functions
    · rfl
  · rfl

theorem functions_foldl_noteImport (body : List Stmt) (env : Environment) :
    (body.foldl (noteImport policy) env).globals.functions = env.globals.functions := by
  induction body generalizing env with
  | nil => rfl
  | cons s body ih => rw [List.foldl_cons, ih, functions_noteImport]

section

variable {g : Globals} {d : Stmt} {s : Signature}

theorem noteFunction_of_error {c : Category} (h : Typing.signature policy d = .error c) :
    noteFunction policy g d = g := by
  cases d with
  | functionDef site x ps returns ds b =>
    simp only [noteFunction, h]
    split
    · rename_i hok
      cases hok
    · rfl
  | _ => rfl

theorem noteFunction_of_signature (h : Typing.signature policy d = .ok s) :
    noteFunction policy g d = if g.function? s.name = none then g.declare s else g := by
  obtain ⟨-, site, ps, returns, ds, b, rfl, -⟩ := Typing.signature_eq_ok h
  simp only [noteFunction, h]
  cases hs : g.function? s.name with
  | none => rfl
  | some t => rfl

theorem noteFunction_cases (policy : Policy) (g : Globals) (d : Stmt) :
    noteFunction policy g d = g ∨ ∃ s, Typing.signature policy d = .ok s ∧
      g.function? s.name = none ∧ noteFunction policy g d = g.declare s := by
  cases hs : Typing.signature policy d with
  | error c => exact .inl (noteFunction_of_error hs)
  | ok s =>
    rw [noteFunction_of_signature hs]
    by_cases hnew : g.function? s.name = none
    · exact .inr ⟨s, rfl, hnew, if_pos hnew⟩
    · exact .inl (if_neg hnew)

end

/-- What holds of every signature that is read from a header of the script holds of all functions
that are found. -/
theorem forall_functions_hoist {P : Signature → Prop} {body : List Stmt}
    (h : ∀ d ∈ body, ∀ s, Typing.signature policy d = .ok s → P s) :
    ∀ s ∈ (hoist policy body).functions, P s := by
  have hfold : ∀ (ss : List Stmt) (g : Globals), (∀ d ∈ ss, d ∈ body) →
      (∀ s ∈ g.functions, P s) → ∀ s ∈ (ss.foldl (noteFunction policy) g).functions, P s := by
    intro ss
    induction ss with
    | nil => exact fun g _ hg => hg
    | cons d ss ih =>
      intro g hss hg
      refine ih _ (fun e he => hss e (List.mem_cons_of_mem _ he)) ?_
      rcases noteFunction_cases policy g d with heq | ⟨s, hs, -, heq⟩
      · rw [heq]
        exact hg
      · rw [heq]
        refine List.forall_mem_cons.2 ⟨h d (hss d List.mem_cons_self) s hs, ?_⟩
        exact fun t ht => hg t (List.mem_of_mem_filter ht)
  refine hfold body _ (fun d hd => hd) ?_
  rw [functions_foldl_noteImport]
  simp [Environment.empty, Environment.ofGlobals, Globals.empty]

/-! ### Finding return types -/

theorem foldl_inferOne_induction {P : Globals → Prop} {pending : List Stmt}
    (hstep : ∀ g, P g → ∀ d ∈ pending, ∀ s body, declared? g d = some (s, body) →
      P (g.setReturns s.name (emitFunction policy g [] s body).1.returns))
    {state : Globals × Bool} (h : P state.1) : P (pending.foldl (inferOne policy) state).1 := by
  induction pending generalizing state with
  | nil => exact h
  | cons d pending ih =>
    refine ih (fun g hg e he => hstep g hg e (List.mem_cons_of_mem _ he)) ?_
    unfold inferOne
    dsimp only
    split
    · exact h
    · rename_i found body hd
      split
      · exact h
      · exact hstep _ h d List.mem_cons_self found body hd

/-- What storing the return type of one function keeps, finding all return types keeps. -/
theorem inferRounds_induction {P : Globals → Prop} {pending : List Stmt}
    (hstep : ∀ g, P g → ∀ d ∈ pending, ∀ s body, declared? g d = some (s, body) →
      P (g.setReturns s.name (emitFunction policy g [] s body).1.returns))
    (rounds : Nat) {g : Globals} (h : P g) : P (inferRounds policy pending rounds g) := by
  induction rounds generalizing g with
  | zero => exact h
  | succ rounds ih =>
    have hround : P (pending.foldl (inferOne policy) (g, false)).1 :=
      foldl_inferOne_induction hstep h
    unfold inferRounds
    split
    · rename_i g' heq
      rw [heq] at hround
      exact ih hround
    · rename_i g' heq
      rw [heq] at hround
      exact hround

/-- **The functions of a script**: what holds of every signature that is read from a header,
whatever return type is found for it, holds of all functions of the script. -/
theorem forall_functions_programGlobals {P : Signature → Prop} {body : List Stmt}
    (h : ∀ d ∈ body, ∀ s, Typing.signature policy d = .ok s → P s)
    (hreturns : ∀ s t, P s → P { s with returns := t }) :
    ∀ s ∈ (programGlobals policy body).functions, P s := by
  refine inferRounds_induction (P := fun g => ∀ s ∈ g.functions, P s)
    (fun g hg _ _ s _ _ t ht => ?_) _ (forall_functions_hoist h)
  obtain ⟨u, hu, rfl⟩ := List.mem_map.1 ht
  split
  · exact hreturns u _ (hg u hu)
  · exact hg u hu

theorem soundDefaults_programGlobals (body : List Stmt) :
    ∀ s ∈ (programGlobals policy body).functions, ∀ p ∈ s.params, p.SoundDefault :=
  forall_functions_programGlobals (fun _ _ _ hs => (Typing.signature_eq_ok hs).1)
    fun _ _ hs => hs

/-- The defaults of all functions of a script are literals. -/
theorem literalDefaults_programGlobals (body : List Stmt) :
    (programGlobals policy body).LiteralDefaults :=
  fun s hs p hp v hv => (soundDefaults_programGlobals body s hs p hp v hv).1

/-! ### Definitions -/

theorem declared?_eq_some {globals : Globals} {d : Stmt} {s : Signature} {body : List Stmt}
    (h : declared? globals d = some (s, body)) :
    globals.function? s.name = some s ∧
      ∃ site name params returns decorators,
        d = .functionDef site name params returns decorators body := by
  unfold declared? at h
  split at h
  · split at h
    · rename_i found hfound
      split at h
      · obtain ⟨rfl, rfl⟩ := Prod.mk.inj (Option.some.inj h)
        rw [Globals.name_of_function? hfound, hfound]
        exact ⟨rfl, _, _, _, _, _, rfl⟩
      · cases h
    · cases h
  · cases h

theorem id_of_declared? {globals : Globals} {d : Stmt} {s : Signature} {body : List Stmt}
    (h : declared? globals d = some (s, body)) : s.id = d.site.id := by
  unfold declared? at h
  split at h
  · split at h
    · split at h
      · rename_i hid
        obtain ⟨rfl, -⟩ := Prod.mk.inj (Option.some.inj h)
        exact hid
      · cases h
    · cases h
  · cases h

theorem declared?_setReturns (globals : Globals) (name : String) (type : StaticType) (d : Stmt) :
    declared? (globals.setReturns name type) d = (declared? globals d).map fun (s, body) =>
      (if s.name = name then { s with returns := type } else s, body) := by
  cases d with
  | functionDef site x parameters returns decorators body =>
    simp only [declared?, Globals.function?_setReturns]
    cases globals.function? x with
    | none => rfl
    | some s =>
      have hid : (if s.name = name then { s with returns := type } else s).id = s.id := by
        split <;> rfl
      simp only [Option.map_some, hid]
      split <;> rfl
  | _ => rfl

theorem isPending_setReturns (globals : Globals) (name : String) (type : StaticType) (d : Stmt) :
    isPending (globals.setReturns name type) d = isPending globals d := by
  have hannotated : ∀ s : Signature,
      (if s.name = name then { s with returns := type } else s).annotated = s.annotated := by
    intro s
    split <;> rfl
  simp only [isPending, declared?_setReturns, Option.any_map, hannotated]

/-- Whether a return type is to be found is known before any is found. -/
theorem isPending_programGlobals (policy : Policy) (body : List Stmt) (d : Stmt) :
    isPending (programGlobals policy body) d = isPending (hoist policy body) d :=
  inferRounds_induction (P := fun g => isPending g d = isPending (hoist policy body) d)
    (fun g hg _ _ s _ _ => (isPending_setReturns g s.name _ d).trans hg) _ rfl

/-- Every function of a script is defined in it. -/
theorem exists_declared?_of_function? {body : List Stmt} {name : String} {s : Signature}
    (h : (programGlobals policy body).function? name = some s) :
    ∃ d ∈ body, ∃ b, declared? (programGlobals policy body) d = some (s, b) := by
  have hheader : ∀ s ∈ (programGlobals policy body).functions, ∃ d ∈ body,
      ∃ site params returns decorators b,
        d = .functionDef site s.name params returns decorators b ∧ s.id = site.id :=
    forall_functions_programGlobals
      (fun d hd s hs => ⟨d, hd, (Typing.signature_eq_ok hs).2⟩) fun _ _ hs => hs
  obtain ⟨d, hd, site, params, returns, decorators, b, rfl, hid⟩ :=
    hheader s (List.mem_of_find?_eq_some h)
  refine ⟨_, hd, b, ?_⟩
  rw [← Globals.name_of_function? h] at h
  simp [declared?, h, hid]

/-- Statements that define functions of one name have one number. -/
theorem id_eq_of_declared? {globals : Globals} {d d' : Stmt} {s s' : Signature} {b b' : List Stmt}
    (h : declared? globals d = some (s, b)) (h' : declared? globals d' = some (s', b'))
    (hname : s.name = s'.name) : d.site.id = d'.site.id := by
  have hs := (declared?_eq_some h).1
  rw [hname, (declared?_eq_some h').1] at hs
  obtain rfl := Option.some.inj hs
  rw [← id_of_declared? h, ← id_of_declared? h']

end Lowering

end StaticScript
