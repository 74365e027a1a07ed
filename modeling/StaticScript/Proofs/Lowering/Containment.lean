import Mathlib.Data.List.Flatten
import StaticScript.Proofs.Lowering.Correspondence
import StaticScript.Source.Compose

/-!
# What is left out leaves no trace

A statement of `main` that is left out becomes one comment and one record.  It notes no import, it
declares no function, and it binds no name, so everything else becomes what it becomes in the script
without that statement (`programGlobals_of_undeclared`).  The other statements keep their shapes and
their order when the script is numbered anew, and shapes and order are all that matters
(`Correspondence.Same.emitItems`).

**Main theorem** (`emit_without`): without a statement that is left out, the program has the same
items but for its comment, the same headers, and the same records but for its record.
-/

namespace StaticScript

/-- The script without the statement at `i`, numbered anew. -/
def Source.Module.without (m : Module) (i : Nat) : Module :=
  Module.number { m with body := m.body.eraseIdx i }

theorem Source.Module.nodup_ids_without {m : Module} (h : m.sites.length < UInt32.size) (i : Nat) :
    ((m.without i).body.map fun s => s.site.id).Nodup := by
  refine nodup_ids_number (Nat.lt_of_le_of_lt ?_ h)
  simp only [sites, Stmt.sitesBlock_eq]
  exact ((List.eraseIdx_sublist m.body i).flatMap _).length_le

theorem Source.Module.hasOperands_number (m : Module) : m.number.hasOperands = m.hasOperands := by
  have hshape : ∀ ss : List Stmt, ss.all Stmt.hasOperands =
      (ss.map (Stmt.mapSite Site.unnumbered)).all Stmt.hasOperands := by
    intro ss
    rw [List.all_map]
    exact congrArg _ (funext fun s => (Stmt.hasOperands_mapSite Site.unnumbered s).symm)
  rw [hasOperands, hasOperands, hshape, shape_number, ← hshape]

/-- Forgets the number of what is left out. -/
def SkipRecord.unnumbered (r : SkipRecord) : SkipRecord := { r with id := 0 }

namespace Lowering

open Source (Site Stmt)

/-- The output is `whole` without the item at `k` and the record at `j`, up to numbers. -/
structure Output.Without (whole : Output) (k j : Nat) (output : Output) : Prop where
  items : output.program.items = whole.program.items.eraseIdx k
  includes : output.program.includes = whole.program.includes
  records : output.records.map SkipRecord.unnumbered =
    (whole.records.eraseIdx j).map SkipRecord.unnumbered

/-- What stands for the statements before the one at `i`, and the state there. -/
def emitBefore (policy : Policy) (m : Source.Module) (i : Nat) : List Target.Item × State :=
  emitItems policy (programGlobals policy m.body) (mainStart (programGlobals policy m.body))
    (m.body.take i)

/-- What stands for the statement at `i`. -/
def itemsAt (policy : Policy) (m : Source.Module) (i : Nat) : List Target.Item :=
  (m.body[i]?).elim [] fun d =>
    (emitItem policy (programGlobals policy m.body) (emitBefore policy m i).2 d).1

variable {policy : Policy} {d : Stmt} {pre post : List Stmt} {g : Globals} {st : State}

/-! ### Functions and imports -/

/-- An import that has a counterpart leaves no comment. -/
theorem noteImport_of_comment (h : (emitStmt policy true st d).1 ≠ []) (env : Environment) :
    noteImport policy env d = env := by
  have hdirect : ∀ s : Stmt, Lowering.isImport s = true →
      Typing.classify env policy false none s = .direct → (emitStmt policy true st s).1 = [] := by
    intro s hs hclass
    cases s with
    | importNames site names =>
      have hst : Typing.classify st.env policy true st.returns (.importNames site names)
          = .direct := hclass
      simp only [emitStmt, settle, hst, lowerStmt]
    | importFrom site package names =>
      have hst : Typing.classify st.env policy true st.returns (.importFrom site package names) =
          .direct := hclass
      simp only [emitStmt, settle, hst, lowerStmt]
    | _ => cases hs
  unfold noteImport
  split
  · exact if_neg fun hclass => h (hdirect _ rfl hclass)
  · exact if_neg fun hclass => h (hdirect _ rfl hclass)
  · rfl

/-- A function that was found stays the one of its name. -/
theorem function?_foldl_noteFunction {name : String} {s : Signature}
    (h : g.function? name = some s) (ss : List Stmt) :
    (ss.foldl (noteFunction policy) g).function? name = some s := by
  induction ss generalizing g with
  | nil => exact h
  | cons d ss ih =>
    refine ih ?_
    rcases noteFunction_cases policy g d with heq | ⟨t, -, hnone, heq⟩
    · rw [heq, h]
    · have hname : t.name ≠ name := by
        rintro rfl
        rw [h] at hnone
        cases hnone
      rw [heq, Globals.function?_declare, if_neg hname, h]

/-- The definition of a function that was found is declared. -/
theorem declared?_programGlobals {body : List Stmt} {s : Signature}
    (hs : Typing.signature policy d = .ok s)
    (h : (hoist policy body).function? s.name = some s) :
    declared? (programGlobals policy body) d ≠ none := by
  have hfinal : ∃ t, (programGlobals policy body).function? s.name = some t ∧ t.id = s.id := by
    refine inferRounds_induction
      (P := fun g => ∃ t, g.function? s.name = some t ∧ t.id = s.id) ?_ _ ⟨s, h, rfl⟩
    intro g hg _ _ found _ _
    obtain ⟨t, ht, hid⟩ := hg
    rw [Globals.function?_setReturns, ht, Option.map_some]
    refine ⟨_, rfl, ?_⟩
    split <;> exact hid
  obtain ⟨t, ht, hid⟩ := hfinal
  obtain ⟨-, site, ps, returns, ds, b, rfl, hsite⟩ := Typing.signature_eq_ok hs
  simp [declared?, ht, hid, hsite]

/-- A definition that is not declared adds nothing to the functions. -/
theorem noteFunction_of_undeclared
    (h : declared? (programGlobals policy (pre ++ d :: post)) d = none) :
    let g := pre.foldl (noteFunction policy)
      ((pre ++ d :: post).foldl (noteImport policy) .empty).globals
    noteFunction policy g d = g := by
  intro g
  have hhoist : hoist policy (pre ++ d :: post) =
      post.foldl (noteFunction policy) (noteFunction policy g d) := by
    rw [hoist, List.foldl_append, List.foldl_cons]
  rcases noteFunction_cases policy g d with heq | ⟨s, hs, -, heq⟩
  · exact heq
  · -- a function that was noted would be declared
    have hfound : (g.declare s).function? s.name = some s := by
      rw [Globals.function?_declare, if_pos rfl]
    refine absurd h (declared?_programGlobals hs ?_)
    rw [hhoist, heq]
    exact function?_foldl_noteFunction hfound post

/-- **A statement that is left out changes nothing in the functions and imports.** -/
theorem programGlobals_of_undeclared
    (h : declared? (programGlobals policy (pre ++ d :: post)) d = none)
    (himport : ∀ env, noteImport policy env d = env) :
    programGlobals policy (pre ++ post) = programGlobals policy (pre ++ d :: post) := by
  have himports : (pre ++ d :: post).foldl (noteImport policy) .empty =
      (pre ++ post).foldl (noteImport policy) .empty := by
    rw [List.foldl_append, List.foldl_cons, himport, List.foldl_append]
  have hhoist : hoist policy (pre ++ post) = hoist policy (pre ++ d :: post) := by
    have hnote := noteFunction_of_undeclared h
    rw [hoist, hoist, ← himports]
    generalize ((pre ++ d :: post).foldl (noteImport policy) .empty).globals = start at hnote ⊢
    rw [List.foldl_append, List.foldl_append, List.foldl_cons, hnote]
  have hpending : isPending (hoist policy (pre ++ d :: post)) d = false := by
    rw [← isPending_programGlobals, isPending, h, Option.any_none]
  rw [programGlobals, programGlobals, hhoist, inferReturns, inferReturns, List.filter_append,
    List.filter_append, List.filter_cons, hpending]
  rfl

/-! ### The statement that is left out -/

theorem emitItems_append (g : Globals) (st : State) (ss ts : List Stmt) :
    emitItems policy g st (ss ++ ts) =
      ((emitItems policy g st ss).1 ++ (emitItems policy g (emitItems policy g st ss).2 ts).1,
        (emitItems policy g (emitItems policy g st ss).2 ts).2) := by
  induction ss generalizing st with
  | nil => rfl
  | cons d ss ih => simp only [List.cons_append, emitItems, ih, List.append_assoc]

/-- What becomes a comment on something left out was left out, and nothing else of it remains. -/
theorem emitItem_skipped (hops : d.hasOperands = true) {reason : Reason} {source : String}
    (h : (emitItem policy g st d).1 = [.stmt (.comment (.skipped reason source))]) :
    declared? g d = none ∧ (∀ env, noteImport policy env d = env) ∧ ∃ c,
      (SkipRecord.ofSite d.site c).comment = .comment (.skipped reason source) ∧
      (emitItem policy g st d).2 = { st with records := st.records ++ [.ofSite d.site c] } := by
  unfold emitItem at h ⊢
  cases hd : declared? g d with
  | some found => simp [hd] at h
  | none =>
    simp only [hd] at h ⊢
    have hblock : (emitStmt policy true st d).1 = [.comment (.skipped reason source)] := by
      obtain ⟨s, hs, heq⟩ := List.map_eq_singleton_iff.1 h
      rw [hs, Target.Item.stmt.inj heq]
    have hcomment : (emitStmt policy true st d).1 ≠ [] := by simp [hblock]
    refine ⟨trivial, noteImport_of_comment hcomment, ?_⟩
    have hemits : Emits policy st d _ _ := emits_emitStmt true st d
    rw [hblock] at hemits
    generalize (emitStmt policy true st d).2 = st' at hemits ⊢
    generalize hb : [Target.Stmt.comment (.skipped reason source)] = b at hemits
    cases hemits with
    | skipped r hsame hrecords hatomic =>
      obtain ⟨⟨c, rfl⟩, rfl⟩ := hatomic hops
      exact ⟨c, (List.cons.inj hb).1.symm, rfl⟩
    | doc hs =>
      cases d <;> simp [docComment] at hb
    | _ => cases hb

/-- A comment needs no header. -/
theorem includes_comment (items items' : List Target.Item) (c : Target.Comment) :
    includes (items ++ .stmt (.comment c) :: items') = includes (items ++ items') := by
  have hneeds : ∀ i, itemNeeds i (.stmt (.comment c)) = false := by
    intro i
    simp [itemNeeds, stmtTreeNeeds, stmtNeeds, Target.Stmt.nested, Target.Stmt.exprNodes]
  simp [includes, hneeds]

/-! ### The other statements -/

/-- A statement of which only a record remains is missed nowhere else. -/
theorem emitItems_without {V : Correspondence} {g' : Globals} {st' st₁ : State} {body : List Stmt}
    (h : V.Same g g' [] [] st st') (hg : V.Globals g g')
    (hbody : List.Forall₂ V.Stmts (pre ++ post) body) {items : List Target.Item}
    {item : Target.Item} {r : SkipRecord} (hpre : emitItems policy g st pre = (items, st₁))
    (hd : emitItem policy g st₁ d = ([item], { st₁ with records := st₁.records ++ [r] })) :
    ∃ items' new,
      (emitItems policy g st (pre ++ d :: post)).1 = items ++ item :: items' ∧
      (emitItems policy g' st' body).1.map (Target.Item.mapSource V.text) =
        (items ++ items').map (Target.Item.mapSource V.text) ∧
      (emitItems policy g st (pre ++ d :: post)).2.records = st₁.records ++ r :: new ∧
      (emitItems policy g' st' body).2.records.map (SkipRecord.mapSite V.site) =
        (st₁.records ++ new).map (SkipRecord.mapSite V.site) := by
  have htake : List.Forall₂ V.Stmts pre (body.take pre.length) := by
    simpa using List.forall₂_take pre.length hbody
  have hdrop : List.Forall₂ V.Stmts post (body.drop pre.length) := by
    simpa using List.forall₂_drop pre.length hbody
  rw [← List.take_append_drop pre.length body, emitItems_append, emitItems_append, hpre]
  obtain ⟨hitems, hbefore⟩ : _ ∧ V.Same g g' [] [] (emitItems policy g st pre).2 _ :=
    h.emitItems htake hg
  rw [hpre] at hitems hbefore
  generalize emitItems policy g' st' (body.take pre.length) = start at hitems hbefore ⊢
  obtain ⟨items₀, st₁'⟩ := start
  obtain ⟨old, old', hold, hold', hmapOld⟩ := hbefore.records
  -- both runs go on from here as if nothing had been left out before
  have hmiddle : V.Same g g' (st₁.records ++ [r]) st₁'.records
      { st₁ with records := st₁.records ++ [r] } st₁' := hbefore.restart _ _
  obtain ⟨hitems', hstop⟩ : _ ∧ V.Same g g' _ _ (emitItems policy g _ post).2 _ :=
    hmiddle.emitItems hdrop hg
  obtain ⟨new, new', hnew, hnew', hmapNew⟩ := hstop.records
  simp only [emitItems, hd]
  refine ⟨(emitItems policy g { st₁ with records := st₁.records ++ [r] } post).1, new,
    rfl, ?_, ?_, ?_⟩
  · rw [List.map_append, List.map_append, hitems, hitems']
  · rw [hnew, List.append_assoc, List.singleton_append]
  · rw [hnew', List.map_append, List.map_append, hmapNew, hold, hold', List.nil_append,
      List.nil_append, hmapOld]

/-! ### Scripts -/

/-- The statements that stay correspond to those of the script that is numbered anew. -/
theorem exists_correspondence {m : Source.Module} (hsize : m.sites.length < UInt32.size) (i : Nat) :
    ∃ V : Correspondence, V.site = Site.unnumbered ∧ V.text = id ∧
      List.Forall₂ V.Stmts (m.number.body.eraseIdx i) (m.number.without i).body := by
  have hids : ((m.number.body.eraseIdx i).map fun s => s.site.id).Nodup :=
    (Source.Module.nodup_ids_number hsize).sublist ((List.eraseIdx_sublist _ i).map _)
  have hids' : ((m.number.without i).body.map fun s => s.site.id).Nodup :=
    Source.Module.nodup_ids_without (by rwa [m.length_sites_number]) i
  exact ⟨.byPlace _ _ hids hids', rfl, rfl,
    Correspondence.forall₂_byPlace (Source.Module.shape_number _) hids hids'⟩

/-- A list has an element in its place between those before and those after. -/
theorem exists_split_of_lt {α : Type} {l : List α} {i : Nat} (h : i < l.length) :
    ∃ pre a post, l = pre ++ a :: post ∧ l.take i = pre ∧ l[i]? = some a ∧
      l.eraseIdx i = pre ++ post :=
  ⟨l.take i, l[i], l.drop (i + 1), by rw [← List.drop_eq_getElem_cons h, List.take_append_drop],
    rfl, List.getElem?_eq_getElem h, List.eraseIdx_eq_take_drop_succ l i⟩

/-- The items and records of the script with and without a statement that is left out. -/
theorem emit_parts (policy : Policy) {m : Source.Module} (hsize : m.sites.length < UInt32.size)
    (hops : m.hasOperands = true) {i : Nat} {reason : Reason} {source : String}
    (hskipped : itemsAt policy m.number i = [.stmt (.comment (.skipped reason source))]) :
    let before := emitBefore policy m.number i
    ∃ d c items new, m.number.body[i]? = some d ∧
      (SkipRecord.ofSite d.site c).comment = .comment (.skipped reason source) ∧
      (emit policy m.number).program.items =
        before.1 ++ .stmt (.comment (.skipped reason source)) :: items ∧
      (emit policy (m.number.without i)).program.items = before.1 ++ items ∧
      (emit policy m.number).records = before.2.records ++ .ofSite d.site c :: new ∧
      (emit policy (m.number.without i)).records.map SkipRecord.unnumbered =
        (before.2.records ++ new).map SkipRecord.unnumbered := by
  intro before
  have hi : i < m.number.body.length := by
    by_contra hi
    rw [itemsAt, List.getElem?_eq_none (Nat.le_of_not_lt hi)] at hskipped
    cases hskipped
  obtain ⟨pre, d, post, hbody, htake, hget, herase⟩ := exists_split_of_lt hi
  have hdops : d.hasOperands = true :=
    List.all_eq_true.1 (m.hasOperands_number.trans hops) d (List.mem_of_getElem? hget)
  -- the statement adds its record and nothing else
  rw [itemsAt, hget, Option.elim_some] at hskipped
  obtain ⟨hundeclared, himport, c, hcomment, hstate⟩ := emitItem_skipped hdops hskipped
  have hglobals : programGlobals policy (pre ++ post) = programGlobals policy m.number.body := by
    rw [hbody] at hundeclared ⊢
    exact programGlobals_of_undeclared hundeclared himport
  -- and all else is the same without it
  obtain ⟨V, hsite, htext, hrest⟩ := exists_correspondence hsize i
  rw [herase] at hrest
  have hg : V.Globals (programGlobals policy m.number.body)
      (programGlobals policy (m.number.without i).body) :=
    hglobals ▸ Correspondence.globals_programGlobals hrest
  obtain ⟨items, new, hitems, hitems', hrecords, hrecords'⟩ :=
    emitItems_without hg.same_mainStart hg hrest (by rw [← htake]; rfl)
      (Prod.ext hskipped hstate)
  rw [← hbody] at hitems hrecords
  rw [htext, show Target.Item.mapSource id = id from funext Target.Item.mapSource_id, List.map_id,
    List.map_id] at hitems'
  rw [hsite] at hrecords'
  exact ⟨d, c, items, new, hget, hcomment, hitems, hitems', hrecords, hrecords'⟩

/-- **What is left out leaves no trace**: if the statement at `i` becomes a comment on something
left out, then the script without it, numbered anew, becomes the same program but for this comment,
and the same is left out of it but for this statement. -/
theorem emit_without (policy : Policy) (m : Source.Module) (hsize : m.sites.length < UInt32.size)
    (hops : m.hasOperands = true) (i : Nat) {reason : Reason} {source : String}
    (hskipped : itemsAt policy m.number i = [.stmt (.comment (.skipped reason source))]) :
    let whole := emit policy m.number
    let k := (emitBefore policy m.number i).1.length
    let j := (emitBefore policy m.number i).2.records.length
    whole.program.items[k]? = some (.stmt (.comment (.skipped reason source))) ∧
      (∃ d c, m.number.body[i]? = some d ∧ whole.records[j]? = some (.ofSite d.site c) ∧
        (SkipRecord.ofSite d.site c).comment = .comment (.skipped reason source)) ∧
      whole.Without k j (emit policy (m.number.without i)) := by
  intro whole k j
  obtain ⟨d, c, items, new, hget, hcomment, hitems, hitems', hrecords, hrecords'⟩ :=
    emit_parts policy hsize hops hskipped
  refine ⟨by simp [whole, hitems, k], ⟨d, c, hget, by simp [whole, hrecords, j], hcomment⟩, ?_⟩
  constructor
  case items =>
    rw [hitems', hitems, List.eraseIdx_append_of_length_le (Nat.le_refl _), Nat.sub_self,
      List.eraseIdx_cons_zero]
  case includes =>
    calc (emit policy (m.number.without i)).program.includes
        = includes ((emitBefore policy m.number i).1 ++ items) := congrArg includes hitems'
      _ = includes ((emitBefore policy m.number i).1 ++
            .stmt (.comment (.skipped reason source)) :: items) := (includes_comment _ _ _).symm
      _ = whole.program.includes := (congrArg includes hitems).symm
  case records =>
    rw [hrecords', hrecords, List.eraseIdx_append_of_length_le (Nat.le_refl _), Nat.sub_self,
      List.eraseIdx_cons_zero]

end Lowering

open Source.Compose in
/-- A script that defines a function twice, and stores an integer in the place of a string. -/
def Source.redefining : Source.Module :=
  script
    [functionDef "f" [] none [ret (some (str "first"))],
     functionDef "f" [] none [ret (some (int 2))],
     assign "x" (call (name "f") [] []),
     assign "x" (int 3)]

/-- The second definition of a function can be deleted, and what is left out behind it stays. -/
theorem Lowering.redefining_without :
    (Source.redefining.sites.length < UInt32.size ∧ Source.redefining.hasOperands = true ∧
      itemsAt ⟨.template, .keep⟩ Source.redefining.number 1 =
        [.stmt (.comment (.skipped Category.unsupported.reason "def f():\n    return 2"))]) ∧
    ((emit ⟨.template, .keep⟩ Source.redefining.number).Without 1 0
        (emit ⟨.template, .keep⟩ (Source.redefining.number.without 1)) ∧
      (emit ⟨.template, .keep⟩ Source.redefining.number).records.map (·.source) =
        ["def f():\n    return 2", "x = 3"]) := by
  have hsize : Source.redefining.sites.length < UInt32.size := by decide +kernel
  have hops : Source.redefining.hasOperands = true := by decide +kernel
  have hskipped : itemsAt ⟨.template, .keep⟩ Source.redefining.number 1 =
      [.stmt (.comment (.skipped Category.unsupported.reason "def f():\n    return 2"))] := rfl
  exact ⟨⟨hsize, hops, hskipped⟩, (emit_without _ _ hsize hops 1 hskipped).2.2, by decide +kernel⟩

end StaticScript
