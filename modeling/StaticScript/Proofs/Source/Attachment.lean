import StaticScript.Proofs.Source.Numbering
import StaticScript.Proofs.Source.Places

/-!
# Texts that are filled in

Filling in texts looks at each site by itself: a text that is there stays, and a missing one becomes
what the span of the site covers, if it covers anything (`Site.Filled`).  A site is counted if its
text is missing and its span covers a text (`Site.isFillable`), even if that is the empty text.

**Main theorem** (`Module.attachText_fills`): this is done for every node of a script, wherever it
stands, and nothing else is; the nodes that are filled are counted; and doing it again changes
nothing.
-/

namespace StaticScript.Source

namespace Site

variable (source : List Char)

/-- The second site is the first one with its text filled in: a text that is there stays, and one
that is missing becomes what the span covers, if it covers anything. -/
structure Filled (s t : Site) : Prop where
  id : t.id = s.id
  span : t.span = s.span
  text : t.text = if s.text = "" then (s.span.extract? source).getD "" else s.text

/-- The text is missing, and the span covers one. -/
def isFillable (s : Site) : Bool := s.text == "" && (s.span.extract? source).isSome

variable {source}

theorem filled_attachText (n : Nat) (s : Site) : Filled source s (attachText source n s).2 := by
  unfold attachText
  by_cases h : s.text = ""
  · rw [if_pos (String.isEmpty_iff.2 h)]
    cases hspan : s.span.extract? source with
    | none => exact ⟨rfl, rfl, by simp [h, hspan]⟩
    | some text => exact ⟨rfl, rfl, by simp [h, hspan]⟩
  · rw [if_neg (by simpa using h)]
    exact ⟨rfl, rfl, (if_neg h).symm⟩

theorem attachText_fst (n : Nat) (s : Site) :
    (attachText source n s).1 = n + if s.isFillable source then 1 else 0 := by
  unfold attachText isFillable
  by_cases h : s.text = ""
  · cases s.span.extract? source <;> simp [h]
  · simp [h]

theorem visit_attachText_fst (source : List Char) (n : Nat) (sites : List Site) :
    (visit (attachText source) n sites).1 = n + sites.countP (isFillable source) := by
  induction sites generalizing n with
  | nil => rfl
  | cons s sites ih =>
    simp only [visit, ih, attachText_fst, List.countP_cons]
    omega

/-- A site that was filled in stays as it is. -/
theorem attachText_of_filled {s t : Site} (h : Filled source s t) (n : Nat) :
    (attachText source n t).2 = t := by
  have hagain : Filled source t (attachText source n t).2 := filled_attachText n t
  have htext : (attachText source n t).2.text = t.text := by
    rw [hagain.text]
    by_cases hmissing : t.text = ""
    -- A text that is still missing was missing before, and the span covers the empty text at most.
    · have hs : s.text = "" := by
        by_contra hs
        rw [h.text, if_neg hs] at hmissing
        exact hs hmissing
      rw [if_pos hmissing, h.span, h.text, if_pos hs]
    · exact if_neg hmissing
  calc (attachText source n t).2
      = ⟨(attachText source n t).2.id, (attachText source n t).2.span,
          (attachText source n t).2.text⟩ := rfl
    _ = t := by rw [hagain.id, hagain.span, htext]

theorem stay_visit_attachText (source : List Char) (k n : Nat) (sites : List Site) :
    Stay (attachText source) n (visit (attachText source) k sites).2 := by
  induction sites generalizing k n with
  | nil => rfl
  | cons s sites ih => exact stay_cons.2 ⟨attachText_of_filled (filled_attachText k s) n, ih _ _⟩

end Site

namespace Module

theorem rel_attachText (source : String) (m : Module) :
    m.Rel (Site.Filled source.toList) (m.attachText source).2 where
  file := rfl
  span := rfl
  body := Stmt.rel_mapSitesBlock Site.filled_attachText 0 m.body

theorem visit_attachText (source : String) (m : Module) :
    Site.visit (Site.attachText source.toList) 0 m.sites =
      ((m.attachText source).1, (m.attachText source).2.sites) :=
  Stmt.visit_sitesBlock _ 0 m.body

theorem attachText_fst (source : String) (m : Module) :
    (m.attachText source).1 = m.sites.countP (Site.isFillable source.toList) := by
  have hvisit := Site.visit_attachText_fst source.toList 0 m.sites
  rwa [visit_attachText, Nat.zero_add] at hvisit

theorem attachText_attachText (source : String) (m : Module) :
    ((m.attachText source).2.attachText source).2 = (m.attachText source).2 := by
  have hstay : Site.Stay (Site.attachText source.toList) 0 (m.attachText source).2.sites := by
    have hvisit := Site.stay_visit_attachText source.toList 0 0 m.sites
    rwa [visit_attachText] at hvisit
  have hbody := Stmt.mapSitesBlock_of_stay 0 (m.attachText source).2.body hstay
  calc ((m.attachText source).2.attachText source).2
      = { (m.attachText source).2 with
          body := (mapSitesBlock (Site.attachText source.toList) 0
            (m.attachText source).2.body).2 } := rfl
    _ = (m.attachText source).2 := by rw [hbody]

/-- **Filling in texts fills every node and nothing else.**  Before and after, a script has the same
places and in each of them the same node, up to a text that was missing and is what the span of the
node covers, if it covers anything.  The count is that of the places with a missing text and a span
that covers one.  A second time changes nothing. -/
theorem attachText_fills (source : String) (m : Module) :
    (m.attachText source).2.id = m.id ∧
      m.Rel (Site.Filled source.toList) (m.attachText source).2 ∧
      (∀ p, Option.Rel (fun a b : Node => Site.Filled source.toList a.site b.site) (m.at? p)
        ((m.attachText source).2.at? p)) ∧
      (m.attachText source).1 = {p | ∃ n, m.at? p = some n ∧ n.site.text = "" ∧
        ∃ text, n.site.span.extract? source.toList = some text}.ncard ∧
      ((m.attachText source).2.attachText source).2 = (m.attachText source).2 := by
  refine ⟨rfl, m.rel_attachText source, (m.rel_attachText source).site_at?, ?_,
    m.attachText_attachText source⟩
  rw [attachText_fst, ← ncard_eq_countP]
  simp only [Site.isFillable, Bool.and_eq_true, beq_iff_eq, Option.isSome_iff_exists]

/-- An assignment without texts, but that its target has a text of its own.  The place of the call
in it is not known. -/
def untexted : Module :=
  let span (start stop : UInt32) : Span := ⟨⟨"a.py", 1, start⟩, ⟨"a.py", 1, stop⟩⟩
  ⟨0, "a.py", [.assign ⟨1, span 1 11, ""⟩ [.name ⟨2, span 1 2, "the target"⟩ "x"]
    (.call ⟨3, .unknown, ""⟩ (.name ⟨4, span 5 6, ""⟩ "f") [] [("k", .int ⟨5, span 9 10, ""⟩ 2)])],
    .unknown⟩

example : (untexted.attachText "x = f(k=2)").1 = 3 ∧
    (untexted.attachText "x = f(k=2)").2.sites.map (·.text) =
      ["x = f(k=2)", "the target", "", "f", "2"] := by
  decide +kernel

end Module

end StaticScript.Source
