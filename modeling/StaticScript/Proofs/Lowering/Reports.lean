import Mathlib.Data.List.Pairwise
import StaticScript.Proofs.Lowering.Containment
import StaticScript.Proofs.Lowering.Skips

/-!
# Reports on what is left out

Each statement that is left out is reported once, in the order of the script, and the report on a
statement covers all that is nested in it.

The statements that are reported stand apart from each other: their sites, with those of all that
is below them, follow one behind the other among the sites of the script (`Apart`).  This passes
from the blocks of a statement to the statement (`Emits.leavesOut`), so it holds of every script.
In a numbered script the numbers increase from site to site, so the numbers of the reports increase,
and no number in one of the statements is found in another (`records_apart`).
-/

namespace StaticScript

/-! ### Statements that stand apart -/

namespace Source

open Stmt (nestedBlock)

/-- The statements `left` are nested in `ss`, in this order, and none of them in another: the sites
of the one come before those of the next. -/
structure Apart (ss left : List Stmt) : Prop where
  nested : left.Sublist (nestedBlock ss)
  sites : (left.flatMap Stmt.sites).Sublist (sitesBlock ss)

namespace Apart

variable {ss ss' left left' : List Stmt}

theorem nil (ss : List Stmt) : Apart ss [] := ⟨List.nil_sublist _, List.nil_sublist _⟩

theorem self (s : Stmt) : Apart [s] [s] where
  nested := by
    simp [nestedBlock, s.mem_nested_self]
  sites := by
    rw [Stmt.sitesBlock_eq]

theorem append (h : Apart ss left) (h' : Apart ss' left') :
    Apart (ss ++ ss') (left ++ left') where
  nested := by
    rw [Stmt.nestedBlock_eq, List.flatMap_append, ← Stmt.nestedBlock_eq, ← Stmt.nestedBlock_eq]
    exact h.nested.append h'.nested
  sites := by
    rw [Stmt.sitesBlock_eq (ss ++ ss'), List.flatMap_append, List.flatMap_append,
      ← Stmt.sitesBlock_eq ss, ← Stmt.sitesBlock_eq ss']
    exact h.sites.append h'.sites

/-- What stands apart in the blocks of a statement does so in the statement. -/
theorem of_blocks {s : Stmt} (h : Apart s.blocks.flatten left) : Apart [s] left where
  nested := by
    have hblocks : s.blocks.flatMap nestedBlock = nestedBlock s.blocks.flatten := by
      rw [funext Stmt.nestedBlock_eq, List.flatten_eq_flatMap, List.flatMap_assoc]
      rfl
    rw [nestedBlock, nestedBlock, List.append_nil, Stmt.nested_eq, hblocks]
    exact h.nested.cons _
  sites := by
    have hblocks : s.blocks.flatMap sitesBlock = sitesBlock s.blocks.flatten := by
      rw [funext Stmt.sitesBlock_eq, List.flatten_eq_flatMap, List.flatMap_assoc]
      rfl
    rw [sitesBlock, sitesBlock, List.append_nil, Stmt.sites_eq, hblocks]
    exact (h.sites.trans (List.sublist_append_right _ _)).cons _

end Apart

/-- In a script whose sites are numbered in order, the numbers of statements that stand apart
increase. -/
theorem Apart.pairwise_ids {ss left : List Stmt} (h : Apart ss left)
    (hids : ((sitesBlock ss).map Site.id).Pairwise (· < ·)) :
    (left.map fun s => s.site.id).Pairwise (· < ·) := by
  have hsites : (left.map Stmt.site).Sublist (sitesBlock ss) := by
    refine List.Sublist.trans ?_ h.sites
    rw [← Stmt.sitesBlock_eq]
    exact ((Stmt.sublist_nestedBlock left).map _).trans (Stmt.sublist_sitesBlock left)
  have hmap := hsites.map Site.id
  rw [List.map_map] at hmap
  exact hids.sublist hmap

/-- In a script whose sites are numbered in order, no statement of those that stand apart is nested
in another. -/
theorem Apart.eq_of_mem_nested {ss left : List Stmt} (h : Apart ss left)
    (hids : ((sitesBlock ss).map Site.id).Pairwise (· < ·)) {s t : Stmt} (hs : s ∈ left)
    (ht : t ∈ left) (hnested : t ∈ s.nested) : t = s := by
  have hsites : t.site ∈ s.sites := s.sublist_sites.subset (List.mem_map_of_mem hnested)
  have hself : t.site ∈ t.sites := t.sublist_sites.subset (List.mem_map_of_mem t.mem_nested_self)
  -- the site of `t` would come before or after itself
  have hbefore : left.Pairwise fun a b => ∀ x ∈ a.sites, ∀ y ∈ b.sites, x.id < y.id :=
    (List.pairwise_flatMap.1 ((List.pairwise_map.1 hids).sublist h.sites)).2
  have hapart : left.Pairwise fun a b => ∀ x ∈ a.sites, x ∉ b.sites :=
    hbefore.imp fun hlt x hx hx' => UInt32.lt_irrefl _ (hlt x hx x hx')
  by_contra hne
  have : Std.Symm fun a b : Stmt => ∀ x ∈ a.sites, x ∉ b.sites :=
    ⟨fun a b hab x hx hx' => hab x hx' hx⟩
  exact hapart.forall hs ht (Ne.symm hne) t.site hsites hself

end Source

namespace Lowering

open Source (Apart Stmt)

variable {policy : Policy}

/-- From one state to another, records have been added on statements of `ss` that stand apart. -/
def LeavesOut (st st' : State) (ss : List Stmt) : Prop :=
  ∃ left : List (Stmt × Category), Apart ss (left.map Prod.fst) ∧
    st'.records = st.records ++ left.map fun p => .ofSite p.1.site p.2

namespace LeavesOut

variable {st st₁ st₂ : State} {ss ss' : List Stmt}

theorem of_records_eq (h : st₁.records = st.records) : LeavesOut st st₁ ss :=
  ⟨[], .nil ss, by rw [h, List.map_nil, List.append_nil]⟩

theorem append (h : LeavesOut st st₁ ss) (h' : LeavesOut st₁ st₂ ss') :
    LeavesOut st st₂ (ss ++ ss') := by
  obtain ⟨left, hapart, hrecords⟩ := h
  obtain ⟨left', hapart', hrecords'⟩ := h'
  refine ⟨left ++ left', ?_, ?_⟩
  · rw [List.map_append]
    exact hapart.append hapart'
  · rw [hrecords', hrecords, List.map_append, List.append_assoc]

theorem of_blocks {s : Stmt} (h : LeavesOut st st₁ s.blocks.flatten) : LeavesOut st st₁ [s] := by
  obtain ⟨left, hapart, hrecords⟩ := h
  exact ⟨left, hapart.of_blocks, hrecords⟩

end LeavesOut

mutual

/-- **A statement is left out as a whole or emitted**: the records that are added on the way are on
statements that stand apart in it. -/
theorem Emits.leavesOut {st st' : State} {s : Stmt} {b : Block} :
    Emits policy st s b st' → s.hasOperands = true → LeavesOut st st' [s]
  | .skipped r _ _ hatomic, hops => by
    obtain ⟨⟨c, rfl⟩, rfl⟩ := hatomic hops
    exact ⟨[(s, c)], .self s, rfl⟩
  | .ifElse _ _ hbody horelse, hops => by
    rw [Stmt.hasOperands_ifElse] at hops
    refine .of_blocks ?_
    rw [Stmt.blocks, List.flatten_cons, List.flatten_singleton]
    exact (hbody.leavesOut hops.2.1).append (horelse.leavesOut hops.2.2)
  | .whileLoop _ _ hbody, hops => by
    rw [Stmt.hasOperands_whileLoop] at hops
    refine .of_blocks ?_
    rw [Stmt.blocks, List.flatten_cons, List.flatten_singleton, List.append_nil]
    exact hbody.leavesOut hops.2.1
  | .forLoop _ hbody, hops => by
    rw [Stmt.hasOperands_forLoop] at hops
    refine .of_blocks ?_
    rw [Stmt.blocks, List.flatten_cons, List.flatten_singleton, List.append_nil]
    exact hbody.leavesOut hops.2.1
  | .doc _, _ | .print _ _ _, _ | .call _ _, _ | .declare _ _ _ _ _, _ | .store _ _ _ _, _
  | .ret _ _, _ | .brk, _ | .cont, _ | .pass, _ | .imports _ _, _ => .of_records_eq rfl

theorem EmitsBlock.leavesOut {st st' : State} {ss : List Stmt} {b : Block} :
    EmitsBlock policy st ss b st' → (∀ s ∈ ss, s.hasOperands = true) → LeavesOut st st' ss
  | .nil, _ => .of_records_eq rfl
  | .cons hfirst hrest, hops => by
    rw [List.forall_mem_cons] at hops
    exact (hfirst.leavesOut hops.1).append (hrest.leavesOut hops.2)

theorem EmitsElse.leavesOut {st st' : State} {ss : List Stmt}
    {branches : List (Target.Expr × Block)} {last : Option Block} :
    EmitsElse policy st ss branches last st' → (∀ s ∈ ss, s.hasOperands = true) →
      LeavesOut st st' ss
  | .none, _ => .of_records_eq rfl
  | .elseIf _ _ hbody horelse, hops => by
    rw [List.forall_mem_singleton, Stmt.hasOperands_ifElse] at hops
    refine .of_blocks ?_
    rw [Stmt.blocks, List.flatten_cons, List.flatten_singleton]
    exact (hbody.leavesOut hops.2.1).append (horelse.leavesOut hops.2.2)
  | .block hbody, hops => hbody.leavesOut hops

end

theorem EmitsItems.leavesOut {globals : Globals} {st st' : State} {ss : List Stmt}
    {items : List Target.Item} (h : EmitsItems policy globals st ss items st')
    (hops : ∀ s ∈ ss, s.hasOperands = true) : LeavesOut st st' ss := by
  induction h with
  | nil => exact .of_records_eq rfl
  | @function st _ d ss body s _ hdecl _ ih =>
    obtain ⟨-, _, _, _, _, _, rfl⟩ := declared?_eq_some hdecl
    obtain ⟨stop, hbody, -, hstop⟩ := emits_emitFunction policy globals st.records s body
    rw [List.forall_mem_cons] at hops
    obtain ⟨left, hapart, hrecords⟩ := hbody.leavesOut (Stmt.hasOperands_functionDef hops.1)
    rw [← hstop] at hrecords
    refine LeavesOut.append (.of_blocks ⟨left, ?_, hrecords⟩) (ih hops.2)
    rwa [Stmt.blocks, List.flatten_singleton]
  | stmt hdecl hfirst hrest ih =>
    rw [List.forall_mem_cons] at hops
    exact (hfirst.leavesOut hops.1).append (ih hops.2)

/-- **Each statement that is left out is reported once, in order, and as a whole.**  The numbers of
the reports increase, each report is on a statement of the script, and none of these statements is
nested in another. -/
theorem records_apart (policy : Policy) (m : Source.Module)
    (hsize : m.sites.length < UInt32.size) (hops : m.hasOperands = true) :
    let records := (emit policy m.number).records
    (records.map (·.id)).Pairwise (· < ·) ∧
    (∀ r ∈ records, ∃ s ∈ Stmt.nestedBlock m.number.body, ∃ c, r = .ofSite s.site c) ∧
    ∀ s ∈ Stmt.nestedBlock m.number.body, ∀ t ∈ s.nested,
      s.site.id ∈ records.map (·.id) → t.site.id ∈ records.map (·.id) → t = s := by
  intro records
  have hids : m.number.sites.map Source.Site.id |>.Pairwise (· < ·) := m.pairwise_ids_number hsize
  have hnodup := m.nodup_ids_nested hsize
  obtain ⟨stop, hitems, hstop⟩ := emitsItems_emit policy m.number
  obtain ⟨left, hapart, hrecords⟩ :=
    hitems.leavesOut (List.all_eq_true.1 (m.hasOperands_number.trans hops))
  have hrecords : records = left.map fun p => .ofSite p.1.site p.2 := hstop.trans hrecords
  have hrecordIds : records.map (·.id) = (left.map Prod.fst).map fun s => s.site.id := by
    rw [hrecords, List.map_map, List.map_map]
    rfl
  -- a statement with the number of a report is the one that is reported
  have hreported : ∀ s ∈ Stmt.nestedBlock m.number.body, s.site.id ∈ records.map (·.id) →
      s ∈ left.map Prod.fst := by
    intro s hs hid
    rw [hrecordIds, List.mem_map] at hid
    obtain ⟨s', hs', hid⟩ := hid
    exact List.inj_on_of_nodup_map hnodup (hapart.nested.subset hs') hs hid ▸ hs'
  refine ⟨?_, ?_, ?_⟩
  · rw [hrecordIds]
    exact hapart.pairwise_ids hids
  · intro r hr
    rw [hrecords, List.mem_map] at hr
    obtain ⟨p, hp, rfl⟩ := hr
    exact ⟨p.1, hapart.nested.subset (List.mem_map_of_mem hp), p.2, rfl⟩
  · intro s hs t ht hsid htid
    have htin := Stmt.nested_subset_of_mem_nestedBlock hs ht
    exact hapart.eq_of_mem_nested hids (hreported s hs hsid) (hreported t htin htid) ht

end Lowering

open Source.Compose in
/-- A script with a loop over a list, which is left out with the list that its body makes, behind a
branch that loses a statement and before two more that are lost. -/
def Source.covering : Source.Module :=
  script
    [ifElse (compare (int 1) [(.lt, int 2)])
      [assign "a" (list [int 1])]
      [forLoop "x" (list [int 2]) [assign "b" (list [name "x"])], expr (name "a")],
     assign "c" (int 3),
     expr (name "c")]

/-- The loop is reported, and what is nested in it is not reported again. -/
theorem Lowering.covering_reports :
    Source.covering.sites.length < UInt32.size ∧ Source.covering.hasOperands = true ∧
      let records := (emit ⟨.template, .keep⟩ Source.covering.number).records
      records.map (fun r => (r.id, r.source)) =
        [(5, "a = [1]"), (9, "for x in [2]:\n    b = [x]"), (17, "a"), (22, "c")] ∧
      (records.map (·.id)).Pairwise (· < ·) ∧
      ∀ s ∈ Source.Stmt.nestedBlock Source.covering.number.body, ∀ t ∈ s.nested,
        s.site.id ∈ records.map (·.id) → t.site.id ∈ records.map (·.id) → t = s :=
  have hsize : Source.covering.sites.length < UInt32.size := by decide +kernel
  have hops : Source.covering.hasOperands = true := by decide +kernel
  have hrecords := records_apart ⟨.template, .keep⟩ Source.covering hsize hops
  ⟨hsize, hops, by decide +kernel, hrecords.1, hrecords.2.2⟩

end StaticScript
