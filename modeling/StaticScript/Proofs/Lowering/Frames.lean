import StaticScript.Proofs.Lowering.Origin

/-!
# What statements do to the scopes

Blocks enter a scope and leave it again, on every way through them, and a statement that fails
half-way has left all scopes that it entered.  So a statement leaves the scopes around its own as
they were, and in its own it declares at most one name: one that was not in scope, and then it is
emitted as the declaration of that name and nothing else (`Emits.innermost`).  Statements that
follow one another add names in this way and never touch a binding (`innermost_lowerBlock`).

**Main theorem** (`frames_kept`): what a statement, a block in a scope of its own, and statements in
the scope at hand leave of the scopes.  The type of a name stays the same for as long as its scope
is open, and nothing that is declared in a block is in scope behind it.
-/

namespace StaticScript.Lowering

open Source (Stmt)

variable {policy : Policy}

/-- **A statement declares at most one name**, which was not in scope, and is then emitted as that
declaration. -/
theorem Emits.innermost {st st' : State} {s : Stmt} {b : Block} (h : Emits policy st s b st') :
    (st'.env.innermost = st.env.innermost ∧ ∀ x t v, .decl x t v ∉ b) ∨
      ∃ x v, st.env.lookup x = none ∧ b = [.decl x v.type v] ∧
        st'.env.innermost = (x, v.type) :: st.env.innermost := by
  cases h with
  | @declare _ _ x _ v _ _ _ hfresh => exact .inr ⟨x, v, hfresh, rfl, rfl⟩
  | skipped r hsame => exact .inl ⟨hsame.innermost, by simp [SkipRecord.comment]⟩
  | ifElse _ _ hbody horelse =>
    exact .inl ⟨(hbody.keeps.pop.trans horelse.sameScope).innermost, by simp⟩
  | whileLoop _ _ hbody => exact .inl ⟨hbody.keeps.pop.innermost, by simp⟩
  | forLoop _ hbody =>
    -- The counter is declared in the scope of the body, which is left with it.
    exact .inl ⟨((st.push.keeps_declare _ _).trans hbody.keeps).pop.innermost, by simp⟩
  | _ => exact .inl ⟨rfl, by simp⟩

/-- Statements add names to the scope at hand that were not in scope before them. -/
theorem innermost_lowerBlock (policy : Policy) (st : State) (ss : List Stmt) :
    ∃ new, (lowerBlock policy st ss).2.env.innermost = new ++ st.env.innermost ∧
      ∀ entry ∈ new, st.env.lookup entry.1 = none := by
  induction ss generalizing st with
  | nil => exact ⟨[], rfl, by simp⟩
  | cons s ss ih =>
    have hfirst : Emits policy st s _ _ := emits_emitStmt false st s
    obtain ⟨new, hnew, hfresh⟩ := ih (emitStmt policy false st s).2
    -- What is not in scope behind the first statement was not in scope before it.
    have hbefore : ∀ entry ∈ new, st.env.lookup entry.1 = none := by
      intro entry hentry
      by_contra hbound
      obtain ⟨t, ht⟩ := Option.ne_none_iff_exists'.1 hbound
      have hafter := hfirst.within.lookup _ t ht
      rw [hfresh entry hentry] at hafter
      cases hafter
    rw [lowerBlock]
    change ∃ new', (lowerBlock policy (emitStmt policy false st s).2 ss).2.env.innermost = _ ∧ _
    rw [hnew]
    rcases hfirst.innermost with ⟨hsame, -⟩ | ⟨x, v, hx, -, hdeclared⟩
    · exact ⟨new, by rw [hsame], hbefore⟩
    · refine ⟨new ++ [(x, v.type)], by rw [hdeclared, List.append_assoc]; rfl, ?_⟩
      rw [List.forall_mem_append, List.forall_mem_singleton]
      exact ⟨hbefore, hx⟩

/-- A binding of the scope at hand is found as before behind names that were not in scope. -/
theorem lookup_append_of_fresh {env : Environment} {new : Frame}
    (hnew : ∀ entry ∈ new, env.lookup entry.1 = none) {x : String} {t : StaticType}
    (hx : env.innermost.lookup x = some t) : (new ++ env.innermost).lookup x = some t := by
  have hbound : env.lookup x = some t := by
    simp only [Environment.lookup, Environment.frames, List.findSome?_cons, hx]
  have hnone : new.lookup x = none := by
    rw [List.lookup_eq_none_iff]
    intro entry hentry
    rw [bne_iff_ne]
    rintro rfl
    rw [hnew entry hentry] at hbound
    cases hbound
  rw [List.lookup_append, hnone, hx]
  rfl

/-- **Scopes are kept.**  A statement leaves the scopes around its own as they were and declares at
most one name, which was not in scope; it is then that declaration.  A block leaves all scopes as
they were.  Statements one after the other only add names that were not in scope, so that no binding
of an open scope changes.  The functions stay the same, and what was imported stays so. -/
theorem frames_kept (policy : Policy) (level : Bool) (st : State) (s : Stmt) (body : List Stmt) :
    let one := emitStmt policy level st s
    let block := emitBlock policy st body
    let all := lowerBlock policy st body
    (one.2.env.outer = st.env.outer ∧
      ((one.2.env.innermost = st.env.innermost ∧ ∀ x t v, .decl x t v ∉ one.1) ∨
        ∃ x v, st.env.lookup x = none ∧ one.1 = [.decl x v.type v] ∧
          one.2.env.innermost = (x, v.type) :: st.env.innermost) ∧
      st.env.globals.Grows one.2.env.globals) ∧
    (block.2.env.frames = st.env.frames ∧ (∀ x, block.2.env.lookup x = st.env.lookup x) ∧
      st.env.globals.Grows block.2.env.globals) ∧
    all.2.env.outer = st.env.outer ∧
      (∀ x t, st.env.innermost.lookup x = some t → all.2.env.innermost.lookup x = some t) ∧
      st.env.globals.Grows all.2.env.globals := by
  intro one block all
  have hone : Emits policy st s one.1 one.2 := emits_emitStmt level st s
  have hblock : st.SameScope block.2 := (emits_lowerBlock st.push body).keeps.pop
  have hall : st.Keeps all.2 := (emits_lowerBlock st body).keeps
  refine ⟨⟨hone.keeps.outer, hone.innermost, hone.keeps.globals⟩,
    ⟨hblock.frames, fun x => Environment.lookup_of_frames hblock.frames, hblock.globals⟩,
    hall.outer, fun x t hx => ?_, hall.globals⟩
  obtain ⟨new, hnew, hfresh⟩ := innermost_lowerBlock policy st body
  rw [hnew]
  exact lookup_append_of_fresh hfresh hx

end StaticScript.Lowering
