import StaticScript.Proofs.Lowering.Correspondence
import StaticScript.Source.Compose

/-!
# Texts and places decide nothing

The text of a node and its place in the script are there for the reader.  They are copied into the
comments on what is left out and into the reports, and nothing that is decided on the way from a
script to a program looks at them: two scripts that differ only in texts and places become the same
program, but for the texts in those comments, and the same is left out of them for the same reasons
(`emit_bare`).  So a script that is loaded without its texts may have them filled in at any time.
-/

namespace StaticScript

/-- A site without its text and its place. -/
def Source.Site.bare (s : Site) : Site := { s with span := .unknown, text := "" }

/-- The statements of a script without texts and places. -/
def Source.Module.bareBody (m : Module) : List Stmt := m.body.map (Stmt.mapSite Site.bare)

/-- Filling in texts changes nothing else. -/
theorem Source.Module.bareBody_attachText (source : String) (m : Module) :
    (m.attachText source).2.bareBody = m.bareBody := by
  refine Stmt.mapSite_mapSitesBlock (fun filled site => ?_) 0 m.body
  unfold Site.attachText
  -- a text is filled in, or the site stays as it is
  split
  · split <;> rfl
  · rfl

/-! ### Headers -/

namespace Target

variable (f : String → String)

namespace Stmt

mutual

theorem exprNodes_mapSource : (s : Stmt) → (s.mapSource f).exprNodes = s.exprNodes
  | .comment c => by cases c <;> rfl
  | .ifElse branches orelse => by
    simp [mapSource, exprNodes, exprNodes_mapSourceBranches branches,
      exprNodes_mapSourceElse orelse]
  | .whileLoop _ body | .forLoop _ _ _ _ body => by
    simp [mapSource, exprNodes, exprNodes_mapSourceBlock body]
  | .decl .. | .assign .. | .expr _ | .print _ | .ret _ | .brk | .cont => by simp [mapSource]

theorem exprNodes_mapSourceBlock : (b : List Stmt) →
    exprNodesBlock (mapSourceBlock f b) = exprNodesBlock b
  | [] => rfl
  | s :: b => by
    simp [mapSourceBlock, exprNodesBlock, exprNodes_mapSource s, exprNodes_mapSourceBlock b]

theorem exprNodes_mapSourceBranches : (bs : List (Expr × List Stmt)) →
    exprNodesBranches (mapSourceBranches f bs) = exprNodesBranches bs
  | [] => rfl
  | (_, b) :: bs => by
    simp [mapSourceBranches, exprNodesBranches, exprNodes_mapSourceBlock b,
      exprNodes_mapSourceBranches bs]

theorem exprNodes_mapSourceElse : (b : Option (List Stmt)) →
    exprNodesElse (mapSourceElse f b) = exprNodesElse b
  | none => rfl
  | some b => by simp [mapSourceElse, exprNodesElse, exprNodes_mapSourceBlock b]

end

mutual

theorem nested_mapSource : (s : Stmt) → (s.mapSource f).nested = s.nested.map (mapSource f)
  | .comment c => by cases c <;> rfl
  | .ifElse branches orelse => by
    simp [mapSource, nested, nested_mapSourceBranches branches, nested_mapSourceElse orelse]
  | .whileLoop _ body | .forLoop _ _ _ _ body => by
    simp [mapSource, nested, nested_mapSourceBlock body]
  | .decl .. | .assign .. | .expr _ | .print _ | .ret _ | .brk | .cont => by
    simp [mapSource, nested]

theorem nested_mapSourceBlock : (b : List Stmt) →
    nestedBlock (mapSourceBlock f b) = (nestedBlock b).map (mapSource f)
  | [] => rfl
  | s :: b => by
    simp [mapSourceBlock, nestedBlock, nested_mapSource s, nested_mapSourceBlock b]

theorem nested_mapSourceBranches : (bs : List (Expr × List Stmt)) →
    nestedBranches (mapSourceBranches f bs) = (nestedBranches bs).map (mapSource f)
  | [] => rfl
  | (_, b) :: bs => by
    simp [mapSourceBranches, nestedBranches, nested_mapSourceBlock b, nested_mapSourceBranches bs]

theorem nested_mapSourceElse : (b : Option (List Stmt)) →
    nestedElse (mapSourceElse f b) = (nestedElse b).map (mapSource f)
  | none => rfl
  | some b => by simp [mapSourceElse, nestedElse, nested_mapSourceBlock b]

end

end Stmt

/-- The program without the texts of what is left out of it. -/
def Program.bare (p : Program) : Program :=
  { p with items := p.items.map (Item.mapSource fun _ => "") }

end Target

namespace Lowering

open Source (Site Stmt)

theorem itemNeeds_mapSource (i : Target.Include) (f : String → String) (item : Target.Item) :
    itemNeeds i (item.mapSource f) = itemNeeds i item := by
  have hstmt : ∀ s : Target.Stmt, stmtNeeds i (s.mapSource f) = stmtNeeds i s := by
    intro s
    cases s with
    | comment c => cases c <;> rfl
    | _ => rfl
  have htree : ∀ s : Target.Stmt, stmtTreeNeeds i (s.mapSource f) = stmtTreeNeeds i s := by
    intro s
    simp only [stmtTreeNeeds, Target.Stmt.nested_mapSource, Target.Stmt.exprNodes_mapSource,
      List.any_map, Function.comp_def, hstmt]
  cases item with
  | function g =>
    simp only [Target.Item.mapSource, itemNeeds, Target.Function.mapSource, headNeeds,
      Target.Stmt.mapSourceBlock_eq, List.any_map, Function.comp_def, htree]
  | stmt s => exact htree s

/-- The headers that items need do not depend on what is said in comments. -/
theorem includes_mapSource (f : String → String) (items : List Target.Item) :
    includes (items.map (Target.Item.mapSource f)) = includes items := by
  simp only [includes, List.any_map, Function.comp_def, itemNeeds_mapSource]

/-! ### Scripts -/

/-- The two outputs differ only in the texts and the places of what is left out. -/
structure Output.SameDecisions (output output' : Output) : Prop where
  program : output'.program.bare = output.program.bare
  records : output'.records.map (fun r => (r.id, r.category, r.reason)) =
    output.records.map fun r => (r.id, r.category, r.reason)

/-- Compares statements by all but their texts and places. -/
def Correspondence.bare : Correspondence where
  site := Site.bare
  text _ := ""
  text_site _ := rfl
  ids := Eq
  ids_iff := by
    rintro a b a' b' rfl rfl
    exact Iff.rfl

theorem Correspondence.forall₂_bare {m m' : Source.Module} (h : m'.bareBody = m.bareBody) :
    List.Forall₂ Correspondence.bare.Stmts m.body m'.body := by
  have hshapes : List.Forall₂ (fun d d' : Stmt => d.mapSite Site.bare = d'.mapSite Site.bare)
      m.body m'.body := by
    have heq : List.Forall₂ Eq m.bareBody m'.bareBody := List.forall₂_eq_eq_eq ▸ h.symm
    rwa [Source.Module.bareBody, Source.Module.bareBody, List.forall₂_map_left_iff,
      List.forall₂_map_right_iff] at heq
  refine hshapes.imp fun d d' hshape => ⟨hshape.symm, ?_⟩
  have hsite := congrArg (fun d => d.site.id) hshape
  rwa [Stmt.site_mapSite, Stmt.site_mapSite] at hsite

theorem sameDecisions_of_bareBody (policy : Policy) {m m' : Source.Module}
    (h : m'.bareBody = m.bareBody) : (emit policy m).SameDecisions (emit policy m') := by
  have hbody := Correspondence.forall₂_bare h
  have hg : Correspondence.bare.Globals (programGlobals policy m.body)
      (programGlobals policy m'.body) := Correspondence.globals_programGlobals hbody
  obtain ⟨hitems, hstop⟩ : (emit policy m').program.items.map (Target.Item.mapSource fun _ => "") =
      (emit policy m).program.items.map (Target.Item.mapSource fun _ => "") ∧ _ :=
    hg.same_mainStart.emitItems hbody hg
  obtain ⟨new, new', hnew, hnew', hmap⟩ := hstop.records
  constructor
  case program =>
    have hincludes : (emit policy m').program.includes = (emit policy m).program.includes := by
      have hneeded := congrArg includes hitems
      rwa [includes_mapSource, includes_mapSource] at hneeded
    rw [Target.Program.bare, Target.Program.bare, hitems, hincludes]
  case records =>
    -- the number and the verdict are still there when text and place are dropped
    have hverdicts := congrArg (List.map fun r : SkipRecord => (r.id, r.category, r.reason)) hmap
    rw [List.map_map, List.map_map] at hverdicts
    calc (emit policy m').records.map (fun r => (r.id, r.category, r.reason))
        = new'.map fun r => (r.id, r.category, r.reason) := congrArg _ hnew'
      _ = new.map fun r => (r.id, r.category, r.reason) := hverdicts
      _ = (emit policy m).records.map fun r => (r.id, r.category, r.reason) :=
        (congrArg _ hnew).symm

/-- **Texts and places decide nothing**: scripts that differ only in them become the same program,
but for the texts of what is left out, and the same is left out of them; and so it is with a script
whose texts are filled in. -/
theorem emit_bare (policy : Policy) (m m' : Source.Module) (h : m'.bareBody = m.bareBody) :
    (emit policy m).SameDecisions (emit policy m') ∧
      ∀ source, (emit policy m).SameDecisions (emit policy (m.attachText source).2) :=
  ⟨sameDecisions_of_bareBody policy h,
    fun source => sameDecisions_of_bareBody policy (m.bareBody_attachText source)⟩

end Lowering

namespace Source

open Compose in
/-- A script that loses the list of its function and its last statement. -/
def worded : Module :=
  script
    [functionDef "f" [⟨"x", some "int", Option.none, .positional⟩] Option.none
      [assign "a" (list [int 1]), augAssign "x" .add (int 2), ret (some (name "x"))],
     expr (call (name "print") [call (name "f") [int 3] []] []),
     expr (name "f")]

/-- The same script without texts, with all nodes on its first line. -/
def wordless : Module :=
  let line : Span := ⟨⟨"script.py", 1, 1⟩, ⟨"script.py", 1, 9⟩⟩
  { worded with body := worded.body.map (Stmt.mapSite fun s => ⟨s.id, line, ""⟩) }

end Source

/-- The scripts lose the same, and each reports it in its own words. -/
theorem Lowering.wordless_decisions :
    Source.wordless.bareBody = Source.worded.bareBody ∧
      (emit ⟨.template, .keep⟩ Source.worded).SameDecisions
        (emit ⟨.template, .keep⟩ Source.wordless) ∧
      (emit ⟨.template, .keep⟩ Source.worded).records.map (·.source) = ["a = [1]", "f"] ∧
      (emit ⟨.template, .keep⟩ Source.wordless).records.map (·.source) = ["", ""] ∧
      (emit ⟨.template, .keep⟩ (Source.wordless.attachText "def f(x):").2).records.map (·.source) =
        ["def f(x)", "def f(x)"] :=
  have hbare : Source.wordless.bareBody = Source.worded.bareBody := by rfl
  ⟨hbare, (emit_bare ⟨.template, .keep⟩ _ _ hbare).1, by decide +kernel, by decide +kernel,
    by decide +kernel⟩

end StaticScript
