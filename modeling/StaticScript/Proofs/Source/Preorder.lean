import StaticScript.Proofs.Source.Numbering
import StaticScript.Proofs.Source.Places
import StaticScript.Source.Compose

/-!
# Numbers in the order of places

In a numbered script the order of the numbers is the order of the places: of two places one comes
first, and its node has the smaller number (`Module.IsNumbered.compare`).  The order of places says
what "before" means here: a node comes before those below it, and what is below an earlier field or
item of a node comes before what is below a later one, the expressions of a statement before its
blocks.

**Main theorem** (`Module.number_preorder`): numbering gives the nodes of a script the numbers from
`1` on, each to one place and in the order of places, and changes nothing else.
-/

namespace StaticScript.Source

namespace Module

/-- **Of two places of a numbered script one comes first, and has the smaller number.** -/
theorem IsNumbered.compare {m : Module} (hm : m.IsNumbered) {p q : Place} {a b : Node}
    (ha : m.at? p = some a) (hb : m.at? q = some b) :
    p = q ∨ p.Before q ∧ a.site.id < b.site.id ∨ q.Before p ∧ b.site.id < a.site.id := by
  obtain ⟨l, hmem, hordered, hsites⟩ := m.exists_lists
  have hids : l.Pairwise fun x y => x.2.site.id < y.2.site.id := by
    have hlt : (m.sites.map (·.id.toNat)).Pairwise (· < ·) := by
      rw [hm.2]
      exact List.pairwise_lt_range'
    rw [← hsites, List.map_map, List.pairwise_map] at hlt
    exact hlt.imp UInt32.lt_iff_toNat_lt.2
  -- The list of places is in both orders, so it only matters which of the two is met first.
  have hboth := List.pairwise_iff_getElem.1 (hordered.and hids)
  obtain ⟨i, hi, hpa⟩ := List.getElem_of_mem ((hmem p a).2 ha)
  obtain ⟨j, hj, hqb⟩ := List.getElem_of_mem ((hmem q b).2 hb)
  rcases Nat.lt_trichotomy i j with hij | rfl | hij
  · have h := hboth i j hi hj hij
    rw [hpa, hqb] at h
    exact .inr (.inl h)
  · exact .inl (congrArg Prod.fst (hpa.symm.trans hqb))
  · have h := hboth j i hj hi hij
    rw [hpa, hqb] at h
    exact .inr (.inr h)

theorem IsNumbered.place_eq {m : Module} (hm : m.IsNumbered) {p q : Place} {a b : Node}
    (ha : m.at? p = some a) (hb : m.at? q = some b) (h : a.site.id = b.site.id) : p = q := by
  rcases hm.compare ha hb with hpq | ⟨-, hlt⟩ | ⟨-, hlt⟩
  · exact hpq
  · exact absurd h (UInt32.ne_of_lt hlt)
  · exact absurd h.symm (UInt32.ne_of_lt hlt)

theorem IsNumbered.lt_of_before {m : Module} (hm : m.IsNumbered) {p q : Place} {a b : Node}
    (h : p.Before q) (ha : m.at? p = some a) (hb : m.at? q = some b) : a.site.id < b.site.id := by
  rcases hm.compare ha hb with rfl | ⟨-, hlt⟩ | ⟨hbefore, -⟩
  · exact absurd h h.asymm
  · exact hlt
  · exact absurd hbefore h.asymm

/-- Some node has a number exactly if the visit comes across the number. -/
theorem exists_at?_iff (m : Module) (k : Nat) :
    (∃ p n, m.at? p = some n ∧ n.site.id.toNat = k) ↔ k ∈ m.sites.map (·.id.toNat) := by
  obtain ⟨l, hmem, -, hsites⟩ := m.exists_lists
  simp only [← hsites, List.map_map, List.mem_map, Prod.exists, hmem, Function.comp_apply]

theorem rel_number (m : Module) :
    m.Rel (fun s t => t.span = s.span ∧ t.text = s.text) m.number where
  file := rfl
  span := rfl
  body := Stmt.rel_mapSitesBlock (fun _ _ => ⟨rfl, rfl⟩) 1 m.body

/-- **Numbering is a pre-order bijection.**  If there is a number for every node, the numbers of the
`n` nodes of a script are those from `1` to `n`, and no two nodes have one number.  A node has a
smaller number than all nodes below it, and the nodes below an earlier step have smaller numbers
than those below a later one.  The script itself gets `0`, and nothing but numbers is changed. -/
theorem number_preorder {m : Module} (h : m.places.ncard < UInt32.size) :
    m.number.id = 0 ∧
      (∀ k, (∃ p n, m.number.at? p = some n ∧ n.site.id.toNat = k) ↔
        1 ≤ k ∧ k ≤ m.places.ncard) ∧
      (∀ p q a b, m.number.at? p = some a → m.number.at? q = some b →
        a.site.id = b.site.id → p = q) ∧
      (∀ p s q a b, m.number.at? p = some a → m.number.at? (p ++ s :: q) = some b →
        a.site.id < b.site.id) ∧
      (∀ r s t p q a b, Step.Before s t → m.number.at? (r ++ s :: p) = some a →
        m.number.at? (r ++ t :: q) = some b → a.site.id < b.site.id) ∧
      m.Rel (fun s t => t.span = s.span ∧ t.text = s.text) m.number := by
  rw [ncard_places] at h ⊢
  have hm := isNumbered_number h
  refine ⟨rfl, fun k => ?_, fun p q a b => hm.place_eq, fun p s q a b => ?_,
    fun r s t p q a b hst => ?_, m.rel_number⟩
  · rw [exists_at?_iff, hm.2, length_sites_number, List.mem_range'_1]
    omega
  · exact hm.lt_of_before (p.before_append_cons s q)
  · exact hm.lt_of_before (Place.before_of_step hst r p q)

open Compose in
/-- A function with a decorator and a default, and a loop in it with an `else`. -/
def decorated : Module :=
  ⟨7, "", [.functionDef ⟨3, .unknown, ""⟩ "f" [⟨"x", none, some (int 1), .positional⟩] none
    [name "once"] [.whileLoop ⟨3, .unknown, ""⟩ (name "x") [pass]
      [expr (call (name "print") [name "x"] [("sep", str "-")])]]], .unknown⟩

/-- Its decorator comes before its default, and all below the body of the loop before the keyword
of the call in the `else`. -/
theorem decorated_preorder :
    decorated.places.ncard < UInt32.size ∧
      ∃ a b c d, decorated.number.at? [⟨.body, 0⟩, ⟨.decorators, 0⟩] = some a ∧
        decorated.number.at? [⟨.body, 0⟩, ⟨.defaults, 0⟩] = some b ∧ a.site.id < b.site.id ∧
        decorated.number.at? [⟨.body, 0⟩, ⟨.body, 0⟩, ⟨.body, 0⟩] = some c ∧
        decorated.number.at? [⟨.body, 0⟩, ⟨.body, 0⟩, ⟨.orelse, 0⟩, ⟨.value, 0⟩, ⟨.keywords, 0⟩] =
          some d ∧ c.site.id < d.site.id := by
  have hsize : decorated.places.ncard < UInt32.size := by
    rw [ncard_places]
    decide +kernel
  obtain ⟨-, -, -, -, hsteps, -⟩ := number_preorder hsize
  refine ⟨hsize, _, _, _, _, rfl, rfl, ?_, rfl, rfl, ?_⟩
  · exact hsteps [⟨.body, 0⟩] ⟨.decorators, 0⟩ ⟨.defaults, 0⟩ [] [] _ _ (.inl (by decide)) rfl rfl
  · exact hsteps [⟨.body, 0⟩, ⟨.body, 0⟩] ⟨.body, 0⟩ ⟨.orelse, 0⟩ [] [⟨.value, 0⟩, ⟨.keywords, 0⟩]
      _ _ (.inl (by decide)) rfl rfl

end Module

end StaticScript.Source
