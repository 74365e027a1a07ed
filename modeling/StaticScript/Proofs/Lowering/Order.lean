import StaticScript.Proofs.Lowering.CallSites
import StaticScript.Proofs.Lowering.Containment

/-!
# Items in the order of the script

The items of a program are those of the statements of the script, one after the other
(`items_emit`).  What stands for one statement is a single item or nothing:

* nothing, if it is a `pass` or an import that has a counterpart (`Vanishes`);
* a function, if it is the first definition of its name whose header has a counterpart
  (`Introduces`);
* a statement of `main` otherwise, and a comment if it is a definition.

The definition that is declared is found twice: in the first pass it is the first of its name
(`Introduces.function?_hoist`), and in the last it is the one with the number that was noted
(`declared?`).  The two agree if no two statements have one number
(`declared?_ne_none_iff`).

**Main theorem** (`items_in_order`).
-/

namespace StaticScript.Lowering

open Source (Stmt)

variable {policy : Policy}

/-! ### One list for each statement -/

theorem emitBefore_succ (policy : Policy) (m : Source.Module) (i : Nat) :
    (emitBefore policy m (i + 1)).1 = (emitBefore policy m i).1 ++ itemsAt policy m i := by
  unfold emitBefore itemsAt
  rw [List.take_add_one]
  cases hd : m.body[i]? with
  | none => simp
  | some d =>
    rw [Option.toList_some, emitItems_append, Option.elim_some]
    simp only [emitItems, List.append_nil]
    rfl

/-- **The items of a program are those of the statements, in the order of the script.** -/
theorem items_emit (policy : Policy) (m : Source.Module) :
    (emit policy m).program.items =
      (List.range m.body.length).flatMap (itemsAt policy m) := by
  have hbefore : ∀ n, (emitBefore policy m n).1 = (List.range n).flatMap (itemsAt policy m) := by
    intro n
    induction n with
    | zero => rfl
    | succ n ih =>
      rw [emitBefore_succ, ih, List.range_succ, List.flatMap_append, List.flatMap_singleton]
  rw [← hbefore, emitBefore, List.take_length]
  rfl

theorem EmitsItems.functions_env {globals : Globals} {st st' : State} {ss : List Stmt}
    {items : List Target.Item} (h : EmitsItems policy globals st ss items st') :
    st'.env.globals.functions = st.env.globals.functions := by
  induction h with
  | nil => rfl
  | function _ _ ih => exact ih
  | stmt _ hfirst _ ih => exact ih.trans hfirst.keeps.functions

theorem functions_emitBefore (policy : Policy) (m : Source.Module) (i : Nat) :
    (emitBefore policy m i).2.env.globals.functions = (programGlobals policy m.body).functions :=
  (emitsItems_emitItems _ _ _).functions_env

/-! ### The first definition of a name -/

/-- The statement at `i` is the first with a header for the name of `s` that has a counterpart, and
its header says `s`. -/
structure Introduces (policy : Policy) (body : List Stmt) (i : Nat) (s : Signature) : Prop where
  header : ∃ d, body[i]? = some d ∧ Typing.signature policy d = .ok s
  first : ∀ d ∈ body.take i, ∀ t, Typing.signature policy d = .ok t → t.name ≠ s.name

variable {g : Globals} {body : List Stmt} {d : Stmt} {s : Signature} {i : Nat}

theorem function?_noteFunction_eq_none {name : String} :
    (noteFunction policy g d).function? name = none ↔
      g.function? name = none ∧ ∀ s, Typing.signature policy d = .ok s → s.name ≠ name := by
  cases hs : Typing.signature policy d with
  | error c => simp [noteFunction_of_error hs]
  | ok s =>
    rw [noteFunction_of_signature hs]
    by_cases hknown : g.function? s.name = none
    · rw [if_pos hknown, Globals.function?_declare]
      by_cases hname : s.name = name
      · simp [hname]
      · simp [hname]
    · -- a name that is known already is not the one that is unknown
      rw [if_neg hknown]
      constructor
      · rintro hnone
        refine ⟨hnone, ?_⟩
        rintro t ⟨⟩ rfl
        exact hknown hnone
      · exact And.left

/-- A name stays unknown exactly if no header says it. -/
theorem function?_foldl_noteFunction_eq_none {name : String} {ss : List Stmt} :
    (ss.foldl (noteFunction policy) g).function? name = none ↔
      g.function? name = none ∧
        ∀ d ∈ ss, ∀ s, Typing.signature policy d = .ok s → s.name ≠ name := by
  induction ss generalizing g with
  | nil => simp
  | cons d ss ih =>
    rw [List.foldl_cons, ih, function?_noteFunction_eq_none, List.forall_mem_cons, and_assoc]

/-- The first pass declares the first definition of a name. -/
theorem Introduces.function?_hoist (h : Introduces policy body i s) :
    (hoist policy body).function? s.name = some s := by
  obtain ⟨⟨d, hd, hs⟩, hfirst⟩ := h
  have hi : i < body.length := (List.getElem?_eq_some_iff.1 hd).1
  obtain ⟨pre, d', post, hbody, htake, hget, -⟩ := exists_split_of_lt hi
  obtain rfl : d' = d := Option.some.inj (hget.symm.trans hd)
  have hstart : (body.foldl (noteImport policy) .empty).globals.function? s.name = none := by
    rw [Globals.function?_congr (functions_foldl_noteImport body .empty)]
    rfl
  unfold hoist
  generalize (body.foldl (noteImport policy) .empty).globals = start at hstart
  have hbefore : (pre.foldl (noteFunction policy) start).function? s.name = none :=
    function?_foldl_noteFunction_eq_none.2 ⟨hstart, htake ▸ hfirst⟩
  rw [hbody, List.foldl_append, List.foldl_cons, noteFunction_of_signature hs, if_pos hbefore]
  refine function?_foldl_noteFunction ?_ post
  rw [Globals.function?_declare, if_pos rfl]

/-- Among the headers for a name there is a first. -/
theorem exists_introduces {name : String}
    (h : ∃ d ∈ body, ∃ s, Typing.signature policy d = .ok s ∧ s.name = name) :
    ∃ i s, Introduces policy body i s ∧ s.name = name := by
  induction body with
  | nil =>
    obtain ⟨d, hd, -⟩ := h
    cases hd
  | cons d body ih =>
    by_cases hd : ∃ s, Typing.signature policy d = .ok s ∧ s.name = name
    · obtain ⟨s, hs, hname⟩ := hd
      exact ⟨0, s, ⟨⟨d, rfl, hs⟩, by simp⟩, hname⟩
    · obtain ⟨e, he, hsignature⟩ := h
      have hmem : e ∈ body := by
        rcases List.mem_cons.1 he with rfl | hmem
        · exact absurd hsignature hd
        · exact hmem
      obtain ⟨i, s, hfirst, hname⟩ := ih ⟨e, hmem, hsignature⟩
      refine ⟨i + 1, s, ⟨by simpa using hfirst.header, ?_⟩, hname⟩
      rw [List.take_succ_cons, List.forall_mem_cons]
      exact ⟨fun t ht heq => hd ⟨t, ht, heq.trans hname⟩, hfirst.first⟩

theorem name_of_declared? {t : Signature} {b : List Stmt} (h : declared? g d = some (t, b))
    (hs : Typing.signature policy d = .ok s) : t.name = s.name := by
  obtain ⟨-, site, ps, returns, ds, b', rfl, -⟩ := Typing.signature_eq_ok hs
  simp only [declared?] at h
  split at h
  · rename_i found hfound
    split at h
    · obtain ⟨rfl, -⟩ := Prod.mk.inj (Option.some.inj h)
      exact Globals.name_of_function? hfound
    · cases h
  · cases h

theorem Introduces.declared? (h : Introduces policy body i s) (hd : body[i]? = some d) :
    ∃ t b, declared? (programGlobals policy body) d = some (t, b) ∧ t.name = s.name := by
  obtain ⟨d', hd', hs⟩ := h.header
  obtain rfl : d' = d := Option.some.inj (hd'.symm.trans hd)
  obtain ⟨⟨t, b⟩, ht⟩ :=
    Option.ne_none_iff_exists'.1 (declared?_programGlobals hs h.function?_hoist)
  exact ⟨t, b, ht, name_of_declared? ht hs⟩

/-- **The definition that is declared is the first of its name**, if the numbers of the statements
are different. -/
theorem declared?_ne_none_iff (hids : (body.map fun s => s.site.id).Nodup)
    (hd : body[i]? = some d) :
    declared? (programGlobals policy body) d ≠ none ↔ ∃ s, Introduces policy body i s := by
  constructor
  · intro hdeclared
    obtain ⟨⟨t, b⟩, ht⟩ := Option.ne_none_iff_exists'.1 hdeclared
    -- the name is that of a header, and the first such header is declared, too
    have hheader : ∃ d ∈ body, ∃ s, Typing.signature policy d = .ok s ∧ s.name = t.name :=
      forall_functions_programGlobals
        (P := fun t => ∃ d ∈ body, ∃ s, Typing.signature policy d = .ok s ∧ s.name = t.name)
        (fun d hd s hs => ⟨d, hd, s, hs, rfl⟩) (fun _ _ h => h) t
        (List.mem_of_find?_eq_some (declared?_eq_some ht).1)
    obtain ⟨j, s, hj, hname⟩ := exists_introduces hheader
    obtain ⟨e, he, -⟩ := hj.header
    obtain ⟨u, b', hu, huname⟩ := hj.declared? he
    -- so both are one statement
    have hid : d.site.id = e.site.id := id_eq_of_declared? ht hu (hname.symm.trans huname.symm)
    have hlt : i < (body.map fun s => s.site.id).length := by
      simpa using (List.getElem?_eq_some_iff.1 hd).1
    obtain rfl : i = j := by
      refine (List.getElem?_inj hlt hids).1 ?_
      rw [List.getElem?_map, List.getElem?_map, hd, he, Option.map_some, Option.map_some, hid]
    exact ⟨s, hj⟩
  · rintro ⟨s, hs⟩
    obtain ⟨t, b, ht, -⟩ := hs.declared? hd
    simp [ht]

/-! ### Statements of `main` -/

/-- Nothing stands for the statement: it is a `pass`, or an import that has a counterpart. -/
def Vanishes (policy : Policy) (st : State) (d : Stmt) : Prop :=
  (∃ site, d = .pass site) ∨
    isImport d = true ∧ Typing.classify st.env policy true st.returns d = .direct

variable {st : State}

/-- A statement becomes nothing or one statement. -/
theorem Emits.length_le {st' : State} {b : Block} (h : Emits policy st d b st') : b.length ≤ 1 := by
  cases h <;> simp

/-- An import becomes nothing exactly if it has a counterpart. -/
theorem emitStmt_isImport (h : isImport d = true) (st : State) :
    (emitStmt policy true st d).1 = [] ↔
      Typing.classify st.env policy true st.returns d = .direct := by
  have hlower : ∃ st', lowerStmt policy st d = (.ok [], st') := by
    cases d with
    | importNames | importFrom => exact ⟨_, rfl⟩
    | _ => cases h
  obtain ⟨st', hlower⟩ := hlower
  unfold emitStmt settle
  constructor
  · intro hnil
    split at hnil
    · assumption
    · rename_i hdoc
      rw [Typing.classify_eq_docOnly_iff] at hdoc
      cases d <;> simp [isImport, Stmt.isDoc] at h hdoc
    · cases hnil
  · intro hdirect
    rw [hdirect, hlower]

theorem emitStmt_eq_nil_iff (st : State) (d : Stmt) :
    (emitStmt policy true st d).1 = [] ↔ Vanishes policy st d := by
  constructor
  · intro hnil
    have hemits : Emits policy st d _ _ := emits_emitStmt true st d
    rw [hnil] at hemits
    generalize hb : ([] : Block) = b at hemits
    generalize (emitStmt policy true st d).2 = st' at hemits
    cases hemits with
    | pass => exact .inl ⟨_, rfl⟩
    | imports hs => exact .inr ⟨hs, (emitStmt_isImport hs st).1 hnil⟩
    | _ => cases hb
  · rintro (⟨site, rfl⟩ | ⟨hs, hdirect⟩)
    · rfl
    · exact (emitStmt_isImport hs st).2 hdirect

/-! ### Scripts -/

/-- What stands for the statement `d` at `i`. -/
structure Placed (policy : Policy) (m : Source.Module) (i : Nat) (d : Stmt) : Prop where
  length_le : (itemsAt policy m i).length ≤ 1
  nothing : itemsAt policy m i = [] ↔ Vanishes policy (emitBefore policy m i).2 d
  function : (∃ f, itemsAt policy m i = [.function f]) ↔ ∃ s, Introduces policy m.body i s
  name : ∀ f s, itemsAt policy m i = [.function f] → Introduces policy m.body i s →
    f.name = s.name
  stmt : (∃ t, itemsAt policy m i = [.stmt t]) ↔
    ¬ Vanishes policy (emitBefore policy m i).2 d ∧ ¬ ∃ s, Introduces policy m.body i s
  skipped : d.isDefinition = true → (¬ ∃ s, Introduces policy m.body i s) →
    itemsAt policy m i =
      [.stmt (.comment (.skipped (Correspondence.refusal policy d).reason d.site.text))]

variable {m : Source.Module}

theorem placed_of_declared {t : Signature} {b : List Stmt} (hd : m.body[i]? = some d)
    (hdeclared : declared? (programGlobals policy m.body) d = some (t, b))
    (hfirst : ∃ s, Introduces policy m.body i s) : Placed policy m i d := by
  have hitems : ∃ f, itemsAt policy m i = [.function f] ∧ f.name = t.name := by
    simp only [itemsAt, hd, Option.elim_some, emitItem, hdeclared]
    exact ⟨_, rfl, rfl⟩
  obtain ⟨f, hitems, hname⟩ := hitems
  have hvanishes : ¬ Vanishes policy (emitBefore policy m i).2 d := by
    obtain ⟨-, site, x, ps, returns, ds, rfl⟩ := declared?_eq_some hdeclared
    rintro (⟨site', heq⟩ | ⟨himport, -⟩)
    · cases heq
    · cases himport
  constructor
  case length_le => simp [hitems]
  case nothing => simp [hitems, hvanishes]
  case function => simp [hitems, hfirst]
  case name =>
    intro f' s hf' hs
    rw [hitems] at hf'
    obtain ⟨⟨⟩⟩ := List.cons.inj hf'
    obtain ⟨d', hd', hsignature⟩ := hs.header
    obtain rfl : d' = d := Option.some.inj (hd'.symm.trans hd)
    exact hname.trans (name_of_declared? hdeclared hsignature)
  case stmt => simp [hitems, hfirst]
  case skipped => exact fun _ hnone => absurd hfirst hnone

theorem placed_of_undeclared (hd : m.body[i]? = some d)
    (hdeclared : declared? (programGlobals policy m.body) d = none)
    (hfirst : ¬ ∃ s, Introduces policy m.body i s) : Placed policy m i d := by
  have hitems : itemsAt policy m i =
      (emitStmt policy true (emitBefore policy m i).2 d).1.map .stmt := by
    simp only [itemsAt, hd, Option.elim_some, emitItem, hdeclared]
  have hlength : (emitStmt policy true (emitBefore policy m i).2 d).1.length ≤ 1 :=
    (emits_emitStmt true _ d).length_le
  have hnil : (emitStmt policy true (emitBefore policy m i).2 d).1 = [] ↔ _ :=
    emitStmt_eq_nil_iff _ d
  constructor
  case length_le => simpa [hitems] using hlength
  case nothing => rw [hitems, List.map_eq_nil_iff, hnil]
  case function => simp [hitems, hfirst, List.map_eq_singleton_iff]
  case name => exact fun f s _ hs => absurd ⟨s, hs⟩ hfirst
  case stmt =>
    rw [← hnil, hitems]
    cases hb : (emitStmt policy true (emitBefore policy m i).2 d).1 with
    | nil => simp
    | cons t ts =>
      rw [hb, List.length_cons] at hlength
      obtain rfl : ts = [] := List.eq_nil_of_length_eq_zero (by omega)
      simp [hfirst]
  case skipped =>
    intro hdef _
    rw [hitems, Correspondence.emitStmt_of_undeclared (functions_emitBefore policy m i) hdeclared,
      Correspondence.emitUndeclared, if_pos hdef]
    rfl

/-- **Each statement of a script is emitted once and in its place.**  The items are those of the
statements one after the other, and what stands for each statement is fixed by its kind and by
whether it is the first definition of its name that has a counterpart.  So no two functions have one
name, and any other definition is a comment where it stands. -/
theorem items_in_order (policy : Policy) (m : Source.Module)
    (hsize : m.sites.length < UInt32.size) :
    (emit policy m.number).program.items =
        (List.range m.number.body.length).flatMap (itemsAt policy m.number) ∧
      (∀ i d, m.number.body[i]? = some d → Placed policy m.number i d) ∧
      ((emit policy m.number).program.functions.map (·.name)).Nodup := by
  have hids := Source.Module.nodup_ids_number hsize
  refine ⟨items_emit policy m.number, fun i d hd => ?_, nodup_names_emit hids⟩
  have hfirst : declared? (programGlobals policy m.number.body) d ≠ none ↔ _ :=
    declared?_ne_none_iff hids hd
  cases hdeclared : declared? (programGlobals policy m.number.body) d with
  | none => exact placed_of_undeclared hd hdeclared fun h => hfirst.2 h hdeclared
  | some found => exact placed_of_declared hd hdeclared (hfirst.1 (by simp [hdeclared]))

end StaticScript.Lowering

namespace StaticScript

open Source.Compose in
/-- A script with three definitions of a function, of which the first takes any number of
arguments. -/
def Source.defining : Source.Module :=
  ⟨0, "script.py",
    [functionDef "f" [⟨"xs", Option.none, Option.none, .varArgs⟩] Option.none [pass],
     importNames ["math"],
     functionDef "f" [] Option.none [ret (some (int 1))],
     pass,
     functionDef "f" [] Option.none [ret (some (int 2))],
     importNames ["os"],
     expr (call (name "print") [call (name "f") [] []] [])], .unknown⟩

/-- The second definition of the three is the function, and the others are comments. -/
theorem Lowering.defining_in_order :
    Source.defining.sites.length < UInt32.size ∧
    (∀ d, Source.defining.number.body[2]? = some d →
      Placed ⟨.template, .keep⟩ Source.defining.number 2 d) ∧
    (List.range 7).map (fun i => (itemsAt ⟨.template, .keep⟩ Source.defining.number i).length) =
      [1, 0, 1, 0, 1, 1, 1] ∧
    (emit ⟨.template, .keep⟩ Source.defining.number).program.functions.map (·.name) = ["f"] ∧
    (emit ⟨.template, .keep⟩ Source.defining.number).records.map (·.source) =
      ["def f(*xs):\n    pass", "def f():\n    return 2", "import os"] := by
  have hsize : Source.defining.sites.length < UInt32.size := by decide +kernel
  exact ⟨hsize, fun d hd => (items_in_order _ _ hsize).2.1 2 d hd, by decide +kernel,
    by decide +kernel, by decide +kernel⟩

end StaticScript
