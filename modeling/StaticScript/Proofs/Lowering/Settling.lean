import Mathlib.Data.Finset.Card
import Mathlib.Data.List.Nodup
import Mathlib.Logic.Relation
import StaticScript.Proofs.Lowering.Calls
import StaticScript.Proofs.Source.Sites

/-!
# Return types settle

Return types that are not annotated are found in rounds, and each round goes through the functions
in the order of the script and stores what it finds at once.  A function is *settled* (`Settled`) if
the stored type is what its body comes to.  What a body comes to depends only on the return types of
the functions that it calls, so storing a type unsettles only the functions that call this one
(`settled_setReturns`).

If no function calls itself, not even through others, the functions have ranks such that each calls
only functions of lower ranks (`Ranked`, `ranked_hoist`).  Each round then settles one rank more and
unsettles no lower one, whatever the order of the definitions (`settled_foldl_inferOne`), and there
are enough rounds for all ranks.

**Main theorem** (`settled_programGlobals`): without recursion, the return types of all functions
are settled in the end.
-/

namespace StaticScript

namespace Lowering

open Source (Stmt)

/-- The return type of the function that `d` defines is what its body comes to. -/
def Settled (policy : Policy) (globals : Globals) (d : Stmt) : Prop :=
  ∀ s body, declared? globals d = some (s, body) →
    (emitFunction policy globals [] s body).1.returns = s.returns

/-- Which function calls which, among those whose return types are not annotated. -/
def unannotatedCalls (policy : Policy) (body : List Stmt) : List (String × String) :=
  let globals := hoist policy body
  let unannotated (name : String) := (globals.function? name).any fun s => !s.annotated
  (body.filterMap (declared? globals)).flatMap fun (s, b) =>
    if s.annotated then []
    else ((b.flatMap Stmt.callees).filter unannotated).map fun name => (s.name, name)

variable {policy : Policy} {globals : Globals} {name : String} {type : StaticType}

/-! ### Storing a return type -/

/-- Storing the return type of a function leaves those settled that do not call it. -/
theorem settled_setReturns {d : Stmt} (h : Settled policy globals d)
    (hother : ∀ s body, declared? globals d = some (s, body) →
      s.name ≠ name ∧ ∀ t ∈ body, name ∉ t.callees) :
    Settled policy (globals.setReturns name type) d := by
  intro s' body hd'
  rw [declared?_setReturns, Option.map_eq_some_iff] at hd'
  obtain ⟨⟨s, b⟩, hd, heq⟩ := hd'
  obtain ⟨hname, hcalls⟩ := hother s b hd
  simp only [if_neg hname] at heq
  obtain ⟨rfl, rfl⟩ := Prod.mk.inj heq
  rw [emitFunction_of_alike (Globals.alike_setReturns globals name type) (.refl _ s)
    (fun _ => hname) (fun t ht f hf heq => hcalls t ht (heq ▸ hf)) [] []]
  exact h s b hd

/-- Storing what its body comes to settles a function that does not call itself. -/
theorem settled_store {d : Stmt} {s : Signature} {body : List Stmt}
    (hd : declared? globals d = some (s, body)) (hannotated : s.annotated = false)
    (hcalls : ∀ t ∈ body, s.name ∉ t.callees) :
    Settled policy
      (globals.setReturns s.name (emitFunction policy globals [] s body).1.returns) d := by
  intro s' body' hd'
  rw [declared?_setReturns, hd, Option.map_some, Option.some.injEq] at hd'
  simp only [if_true] at hd'
  obtain ⟨rfl, rfl⟩ := Prod.mk.inj hd'
  have halike : s.Alike {other | other ≠ s.name}
      { s with returns := (emitFunction policy globals [] s body).1.returns } :=
    ⟨rfl, rfl, rfl, fun hne => absurd rfl hne⟩
  rw [emitFunction_of_alike (Globals.alike_setReturns globals s.name _) halike
    (by simp [hannotated]) (fun t ht f hf heq => hcalls t ht (heq ▸ hf)) [] []]

/-! ### Rounds -/

/-- A step finds a function settled and changes nothing, or it stores a type. -/
theorem inferOne_cases (policy : Policy) (globals : Globals) (changed : Bool) (d : Stmt) :
    (Settled policy globals d ∧ inferOne policy (globals, changed) d = (globals, changed)) ∨
      ¬ Settled policy globals d ∧ ∃ s body, declared? globals d = some (s, body) ∧
        inferOne policy (globals, changed) d =
          (globals.setReturns s.name (emitFunction policy globals [] s body).1.returns, true) := by
  unfold inferOne
  dsimp only
  cases hd : declared? globals d with
  | none =>
    refine .inl ⟨fun s body h => ?_, rfl⟩
    rw [hd] at h
    cases h
  | some found =>
    obtain ⟨s, body⟩ := found
    by_cases hs : s.returns = (emitFunction policy globals [] s body).1.returns
    · refine .inl ⟨fun s' body' h => ?_, if_pos hs⟩
      obtain ⟨rfl, rfl⟩ := Prod.mk.inj (Option.some.inj (hd.symm.trans h))
      exact hs.symm
    · exact .inr ⟨fun h => hs (h s body hd).symm, s, body, rfl, if_neg hs⟩

/-- A round that changes nothing finds all functions settled. -/
theorem settled_of_unchanged {pending : List Stmt} {changed : Bool} {globals globals' : Globals}
    (h : pending.foldl (inferOne policy) (globals, changed) = (globals', false)) :
    changed = false ∧ globals' = globals ∧ ∀ d ∈ pending, Settled policy globals d := by
  induction pending generalizing globals changed with
  | nil =>
    obtain ⟨rfl, rfl⟩ := Prod.mk.inj h
    exact ⟨rfl, rfl, by simp⟩
  | cons d pending ih =>
    rw [List.foldl_cons] at h
    rcases inferOne_cases policy globals changed d with ⟨hd, hstep⟩ | ⟨-, s, body, -, hstep⟩
    · rw [hstep] at h
      obtain ⟨hchanged, hglobals, hrest⟩ := ih h
      exact ⟨hchanged, hglobals, List.forall_mem_cons.2 ⟨hd, hrest⟩⟩
    · -- a change is not forgotten in the rest of the round
      rw [hstep] at h
      exact absurd (ih h).1 (by simp)

/-- The functions that `pending` defines are all different and not annotated, and each calls only
functions of lower ranks. -/
structure Ranked (rank : Stmt → Nat) (pending : List Stmt) (globals : Globals) : Prop where
  unannotated : ∀ d ∈ pending, ∀ s body, declared? globals d = some (s, body) → s.annotated = false
  distinct : ∀ d ∈ pending, ∀ e ∈ pending, ∀ s b s' b', declared? globals d = some (s, b) →
    declared? globals e = some (s', b') → s.name = s'.name → d = e
  calls : ∀ d ∈ pending, ∀ e ∈ pending, ∀ s b s' b', declared? globals d = some (s, b) →
    declared? globals e = some (s', b') → ∀ t ∈ b, s'.name ∈ t.callees → rank e < rank d

variable {rank : Stmt → Nat} {pending : List Stmt}

theorem Ranked.setReturns (h : Ranked rank pending globals) (name : String) (type : StaticType) :
    Ranked rank pending (globals.setReturns name type) := by
  -- the same functions are defined, up to their return types
  have hdeclared : ∀ d s' b, declared? (globals.setReturns name type) d = some (s', b) →
      ∃ s, declared? globals d = some (s, b) ∧ s'.name = s.name ∧ s'.annotated = s.annotated := by
    intro d s' b hd
    rw [declared?_setReturns, Option.map_eq_some_iff] at hd
    obtain ⟨⟨s, _⟩, hd, heq⟩ := hd
    obtain ⟨rfl, rfl⟩ := Prod.mk.inj heq
    refine ⟨s, hd, ?_⟩
    split <;> exact ⟨rfl, rfl⟩
  refine ⟨?_, ?_, ?_⟩
  · intro d hd s' b hs'
    obtain ⟨s, hs, -, hannotated⟩ := hdeclared d s' b hs'
    rw [hannotated, h.unannotated d hd s b hs]
  · intro d hd e he s' b t' c hs' ht' hname
    obtain ⟨s, hs, hsname, -⟩ := hdeclared d s' b hs'
    obtain ⟨t, ht, htname, -⟩ := hdeclared e t' c ht'
    exact h.distinct d hd e he s b t c hs ht (by rwa [← hsname, ← htname])
  · intro d hd e he s' b t' c hs' ht' u hu hcall
    obtain ⟨s, hs, -, -⟩ := hdeclared d s' b hs'
    obtain ⟨t, ht, htname, -⟩ := hdeclared e t' c ht'
    exact h.calls d hd e he s b t c hs ht u hu (htname ▸ hcall)

/-- **A round settles one rank more.** -/
theorem settled_foldl_inferOne {r : Nat} {todo : List Stmt} {changed : Bool} {globals : Globals}
    (hranked : Ranked rank pending globals) (htodo : ∀ d ∈ todo, d ∈ pending)
    (hbelow : ∀ d ∈ pending, rank d < r → Settled policy globals d)
    (hdone : ∀ d ∈ pending, rank d = r → d ∈ todo ∨ Settled policy globals d) :
    Ranked rank pending (todo.foldl (inferOne policy) (globals, changed)).1 ∧
      ∀ d ∈ pending, rank d ≤ r →
        Settled policy (todo.foldl (inferOne policy) (globals, changed)).1 d := by
  induction todo generalizing globals changed with
  | nil =>
    refine ⟨hranked, fun d hd hr => ?_⟩
    rcases Nat.lt_or_eq_of_le hr with hr | hr
    · exact hbelow d hd hr
    · exact (hdone d hd hr).resolve_left List.not_mem_nil
  | cons e todo ih =>
    rw [List.forall_mem_cons] at htodo
    rw [List.foldl_cons]
    rcases inferOne_cases policy globals changed e with ⟨he, hstep⟩ | ⟨hne, s, body, he, hstep⟩
    · rw [hstep]
      refine ih hranked htodo.2 hbelow fun d hd hr => ?_
      rcases hdone d hd hr with hmem | hsettled
      · rcases List.mem_cons.1 hmem with rfl | hmem
        · exact .inr he
        · exact .inl hmem
      · exact .inr hsettled
    · rw [hstep]
      -- what was not settled has at least rank `r`, so no function of rank `r` calls it
      have hrank : r ≤ rank e := Nat.le_of_not_lt fun hlt => hne (hbelow e htodo.1 hlt)
      have hkept : ∀ d ∈ pending, rank d ≤ r → d ≠ e → Settled policy globals d →
          Settled policy
            (globals.setReturns s.name (emitFunction policy globals [] s body).1.returns) d := by
        intro d hd hr hde hsettled
        refine settled_setReturns hsettled fun s' b hs' => ⟨fun hname => ?_, fun t ht hcall => ?_⟩
        · exact hde (hranked.distinct d hd e htodo.1 s' b s body hs' he hname)
        · have := hranked.calls d hd e htodo.1 s' b s body hs' he t ht hcall
          omega
      refine ih (hranked.setReturns _ _) htodo.2 ?_ ?_
      · intro d hd hlt
        refine hkept d hd hlt.le ?_ (hbelow d hd hlt)
        rintro rfl
        omega
      · intro d hd hr
        by_cases hde : d = e
        · subst hde
          refine .inr (settled_store he (hranked.unannotated d hd s body he) fun t ht hcall => ?_)
          exact absurd (hranked.calls d hd d hd s body s body he he t ht hcall) (lt_irrefl _)
        · rcases hdone d hd hr with hmem | hsettled
          · exact .inl ((List.mem_cons.1 hmem).resolve_left hde)
          · exact .inr (hkept d hd hr.le hde hsettled)

/-- As many rounds as there are ranks left settle all functions. -/
theorem settled_inferRounds {r rounds : Nat} {globals : Globals}
    (hranked : Ranked rank pending globals) (hbound : ∀ d ∈ pending, rank d < r + rounds)
    (hbelow : ∀ d ∈ pending, rank d < r → Settled policy globals d) :
    ∀ d ∈ pending, Settled policy (inferRounds policy pending rounds globals) d := by
  induction rounds generalizing r globals with
  | zero => exact fun d hd => hbelow d hd (hbound d hd)
  | succ rounds ih =>
    have hround : Ranked rank pending (pending.foldl (inferOne policy) (globals, false)).1 ∧ _ :=
      settled_foldl_inferOne hranked (fun d hd => hd) hbelow fun d hd _ => .inl hd
    -- The rounds end early only when there is nothing left to settle.
    unfold inferRounds
    split
    · rename_i globals' heq
      rw [heq] at hround
      refine ih (r := r + 1) hround.1 (fun d hd => ?_) fun d hd hr => ?_
      · have := hbound d hd
        omega
      · exact hround.2 d hd (by omega)
    · rename_i globals' heq
      obtain ⟨-, rfl, hsettled⟩ := settled_of_unchanged heq
      exact hsettled

/-! ### Ranks -/

/-- `f` calls `g`, and the return types of both are not annotated. -/
abbrev Calls (policy : Policy) (body : List Stmt) (f g : String) : Prop :=
  (f, g) ∈ unannotatedCalls policy body

/-- The names of the functions whose return types are to be found. -/
def pendingNames (policy : Policy) (body : List Stmt) : List String :=
  (body.filter (isPending (hoist policy body))).filterMap fun d =>
    (declared? (hoist policy body) d).map fun (s, _) => s.name

open Classical in
/-- The functions that `f` calls, by itself or through others. -/
noncomputable def calledBy (policy : Policy) (body : List Stmt) (f : String) : Finset String :=
  (pendingNames policy body).toFinset.filter (Relation.TransGen (Calls policy body) f)

/-- The number of functions that the function of `d` calls, by itself or through others. -/
noncomputable def callRank (policy : Policy) (body : List Stmt) (d : Stmt) : Nat :=
  (declared? (hoist policy body) d).elim 0 fun (s, _) => (calledBy policy body s.name).card

section

variable {body b b' : List Stmt} {d e : Stmt} {s s' : Signature}

theorem callRank_eq (h : declared? (hoist policy body) d = some (s, b)) :
    callRank policy body d = (calledBy policy body s.name).card := by
  rw [callRank, h, Option.elim_some]

theorem annotated_of_mem_pending (hd : d ∈ body.filter (isPending (hoist policy body)))
    (hs : declared? (hoist policy body) d = some (s, b)) : s.annotated = false := by
  simpa [isPending, hs] using (List.mem_filter.1 hd).2

theorem mem_pendingNames (hd : d ∈ body.filter (isPending (hoist policy body)))
    (hs : declared? (hoist policy body) d = some (s, b)) : s.name ∈ pendingNames policy body :=
  List.mem_filterMap.2 ⟨d, hd, by rw [hs, Option.map_some]⟩

theorem calls_of_mem_callees (hd : d ∈ body.filter (isPending (hoist policy body)))
    (he : e ∈ body.filter (isPending (hoist policy body)))
    (hs : declared? (hoist policy body) d = some (s, b))
    (hs' : declared? (hoist policy body) e = some (s', b')) {t : Stmt} (ht : t ∈ b)
    (hcall : s'.name ∈ t.callees) : Calls policy body s.name s'.name := by
  refine List.mem_flatMap.2 ⟨(s, b), List.mem_filterMap.2 ⟨d, (List.mem_filter.1 hd).1, hs⟩, ?_⟩
  simp only [annotated_of_mem_pending hd hs, Bool.false_eq_true, if_false]
  refine List.mem_map.2 ⟨s'.name, List.mem_filter.2 ⟨List.mem_flatMap.2 ⟨t, ht, hcall⟩, ?_⟩, rfl⟩
  simp [(declared?_eq_some hs').1, annotated_of_mem_pending he hs']

/-- A function calls fewer functions than one that calls it. -/
theorem card_calledBy_lt (hacyclic : ∀ f, ¬ Relation.TransGen (Calls policy body) f f)
    {f g : String} (hcall : Calls policy body f g) (hg : g ∈ pendingNames policy body) :
    (calledBy policy body g).card < (calledBy policy body f).card := by
  classical
  refine Finset.card_lt_card (Finset.ssubset_iff_of_subset ?_ |>.2 ⟨g, ?_, ?_⟩)
  · intro x hx
    obtain ⟨hname, hpath⟩ := Finset.mem_filter.1 hx
    exact Finset.mem_filter.2 ⟨hname, hpath.head hcall⟩
  · exact Finset.mem_filter.2 ⟨List.mem_toFinset.2 hg, .single hcall⟩
  · exact fun hx => hacyclic g (Finset.mem_filter.1 hx).2

/-- No function calls all functions, as it does not call itself. -/
theorem card_calledBy_lt_length (hacyclic : ∀ f, ¬ Relation.TransGen (Calls policy body) f f)
    {f : String} (hf : f ∈ pendingNames policy body) :
    (calledBy policy body f).card < (body.filter (isPending (hoist policy body))).length := by
  classical
  have hlt : (calledBy policy body f).card < (pendingNames policy body).toFinset.card := by
    refine Finset.card_lt_card (Finset.filter_ssubset.2 ⟨f, List.mem_toFinset.2 hf, ?_⟩)
    exact hacyclic f
  calc (calledBy policy body f).card
      < (pendingNames policy body).toFinset.card := hlt
    _ ≤ (pendingNames policy body).length := List.toFinset_card_le _
    _ ≤ (body.filter (isPending (hoist policy body))).length := List.length_filterMap_le _ _

theorem callRank_lt_length (hacyclic : ∀ f, ¬ Relation.TransGen (Calls policy body) f f)
    (hd : d ∈ body.filter (isPending (hoist policy body))) :
    callRank policy body d < (body.filter (isPending (hoist policy body))).length := by
  obtain ⟨⟨s, b⟩, hs, -⟩ := (Option.any_eq_true _ _).1 (List.mem_filter.1 hd).2
  rw [callRank_eq hs]
  exact card_calledBy_lt_length hacyclic (mem_pendingNames hd hs)

/-- Without recursion, the functions are ranked by how many functions they call. -/
theorem ranked_hoist (hids : (body.map fun s => s.site.id).Nodup)
    (hacyclic : ∀ f, ¬ Relation.TransGen (Calls policy body) f f) :
    Ranked (callRank policy body) (body.filter (isPending (hoist policy body)))
      (hoist policy body) where
  unannotated _ hd _ _ hs := annotated_of_mem_pending hd hs
  distinct d hd e he s b s' b' hs hs' hname :=
    List.inj_on_of_nodup_map hids (List.mem_filter.1 hd).1 (List.mem_filter.1 he).1
      (id_eq_of_declared? hs hs' hname)
  calls d hd e he s b s' b' hs hs' t ht hcall := by
    rw [callRank_eq hs, callRank_eq hs']
    exact card_calledBy_lt hacyclic (calls_of_mem_callees hd he hs hs' ht hcall)
      (mem_pendingNames he hs')

end

/-- **Without recursion all return types settle**: lowering the body of any function once more comes
to the return type that was found for it, in whatever order the functions are defined. -/
theorem settled_programGlobals (policy : Policy) (m : Source.Module)
    (hsize : m.sites.length < UInt32.size)
    (hacyclic : ∀ f, ¬ Relation.TransGen (Calls policy m.number.body) f f) :
    (∀ d ∈ m.number.body, Settled policy (programGlobals policy m.number.body) d) ∧
      ∀ name s, (programGlobals policy m.number.body).function? name = some s →
        ∃ d ∈ m.number.body, ∃ body,
          declared? (programGlobals policy m.number.body) d = some (s, body) := by
  refine ⟨fun d hd s body hs => ?_, fun name s hs => exists_declared?_of_function? hs⟩
  by_cases hannotated : s.annotated = true
  · exact returns_emitFunction_of_annotated hannotated
  · have hpending : d ∈ m.number.body.filter (isPending (hoist policy m.number.body)) := by
      refine List.mem_filter.2 ⟨hd, ?_⟩
      rw [← isPending_programGlobals]
      simpa [isPending, hs] using hannotated
    have hranked := ranked_hoist (m.nodup_ids_number hsize) hacyclic
    have hbound : ∀ e ∈ m.number.body.filter (isPending (hoist policy m.number.body)),
        callRank policy m.number.body e < 0 +
          ((m.number.body.filter (isPending (hoist policy m.number.body))).length + 1) := by
      intro e he
      have := callRank_lt_length hacyclic he
      omega
    exact settled_inferRounds hranked hbound (by simp) d hpending s body hs

/-- There is no recursion if the functions can be listed such that calls lead to earlier ones. -/
theorem acyclic_of_idxOf_lt {body : List Stmt} (order : List String)
    (h : ∀ call ∈ unannotatedCalls policy body, order.idxOf call.2 < order.idxOf call.1)
    (f : String) : ¬ Relation.TransGen (Calls policy body) f f := by
  intro hpath
  have hlt : Relation.TransGen (· > ·) (order.idxOf f) (order.idxOf f) :=
    hpath.lift order.idxOf fun a b hcall => h (a, b) hcall
  rw [Relation.transGen_eq_self] at hlt
  exact lt_irrefl _ hlt

end Lowering

open Source.Compose in
/-- Functions that are defined before the ones that they call, so that each round finds the return
type of only one of them. -/
def Source.backward : Source.Module :=
  script
    [functionDef "first" [] none [ret (some (call (name "second") [] []))],
     functionDef "second" [] none [ret (some (call (name "third") [] []))],
     functionDef "third" [] none [ret (some (str "end"))]]

/-- The return types of functions in the least favourable order settle. -/
theorem Lowering.backward_settled :
    (Source.backward.sites.length < UInt32.size ∧
      ∀ f, ¬ Relation.TransGen (Calls ⟨.template, .keep⟩ Source.backward.number.body) f f) ∧
    ((∀ d ∈ Source.backward.number.body,
        Settled ⟨.template, .keep⟩
          (programGlobals ⟨.template, .keep⟩ Source.backward.number.body) d) ∧
      ∀ name s,
        (programGlobals ⟨.template, .keep⟩ Source.backward.number.body).function? name = some s →
          ∃ d ∈ Source.backward.number.body, ∃ body, declared?
            (programGlobals ⟨.template, .keep⟩ Source.backward.number.body) d = some (s, body)) ∧
    ((programGlobals ⟨.template, .keep⟩ Source.backward.number.body).function? "first").map
      (·.returns) = some .string := by
  have hsize : Source.backward.sites.length < UInt32.size := by decide +kernel
  have hacyclic :
      ∀ f, ¬ Relation.TransGen (Calls ⟨.template, .keep⟩ Source.backward.number.body) f f :=
    acyclic_of_idxOf_lt ["third", "second", "first"] (by decide +kernel)
  exact ⟨⟨hsize, hacyclic⟩, settled_programGlobals _ Source.backward hsize hacyclic,
    by decide +kernel⟩

end StaticScript
