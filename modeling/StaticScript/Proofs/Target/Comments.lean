import StaticScript.Proofs.Target.Lexing
import StaticScript.Target.Printer

/-!
# Comments are inert

Comments carry texts of scripts, in which anything may stand.  A comment that ended too late would
swallow the code behind it, and one that ended too early would turn the rest of its text into code.
The three forms of comments are chosen such that neither happens.

Every text of a comment has no trailing backslash, so no line is spliced into the next one, and what
is left when the comments in it are removed is white space (`Inert`).  This holds of a line comment
in each of its forms (`inert_lineComment`), of documentation as a block comment (`inert_doc`), and
of lines put together (`Inert.flatMap`).

**Main theorem** (`comment_inert`): behind a comment, code is read as if the comment were a few
blanks and the end of a line.
-/

namespace StaticScript.Target

open Text (isBlank)

/-- The lines that a comment is given line by line are lines. -/
def Comment.isLinewise : Comment → Bool
  | .doc lines => lines.all fun l => !l.toList.contains '\n'
  | .line text => !text.toList.contains '\n'
  | .skipped _ _ => true

/-- The text survives splicing, and of its lines only blanks and line feeds are left when comments
are removed.  The last of these ends a line. -/
structure Inert (cs : List Char) : Prop where
  unspliced : hasTrailingBackslash cs = false
  scanned : ∃ blanks, scan .code cs = (blanks ++ ['\n'], .code) ∧ ∀ b ∈ blanks, b = ' ' ∨ b = '\n'

namespace Inert

variable {a b : List Char}

/-- Blanks are left of the indentation, and one of the comment. -/
theorem of_scan (n : Nat) (hsplice : hasTrailingBackslash a = false)
    (hscan : scan .code a = (List.replicate n ' ' ++ [' ', '\n'], .code)) : Inert a := by
  refine ⟨hsplice, List.replicate n ' ' ++ [' '], ?_, fun b hb => ?_⟩
  · rw [hscan, List.append_assoc]
    rfl
  · rw [List.mem_append, List.mem_singleton] at hb
    exact .inl (hb.elim List.eq_of_mem_replicate id)

theorem append (ha : Inert a) (hb : Inert b) : Inert (a ++ b) := by
  obtain ⟨blanks, hscan, hblanks⟩ := ha.scanned
  obtain ⟨blanks', hscan', hblanks'⟩ := hb.scanned
  refine ⟨hasTrailingBackslash_append ha.unspliced hb.unspliced, blanks ++ '\n' :: blanks', ?_, ?_⟩
  · simp only [scan_append, hscan, hscan', List.append_assoc, List.cons_append, List.nil_append]
  · intro c hc
    rcases List.mem_append.1 hc with hc | hc
    · exact hblanks c hc
    · rcases List.mem_cons.1 hc with rfl | hc
      · exact .inr rfl
      · exact hblanks' c hc

/-- Lines that are inert are inert together. -/
theorem flatMap {ls : List (List Char)} {f : List Char → List Char} (hne : ls ≠ [])
    (h : ∀ l ∈ ls, Inert (f l)) : Inert (ls.flatMap f) := by
  induction ls with
  | nil => exact absurd rfl hne
  | cons l ls ih =>
    rw [List.forall_mem_cons] at h
    rw [List.flatMap_cons]
    by_cases hls : ls = []
    · rw [hls, List.flatMap_nil, List.append_nil]
      exact h.1
    · exact h.1.append (ih hls h.2)

end Inert

/-- A line with its indentation and its line feed. -/
def indented (level : Nat) (l : List Char) : List Char :=
  List.replicate (4 * level) ' ' ++ (l ++ ['\n'])

theorem toList_text_comment (level : Nat) (c : Comment) :
    ((Stmt.comment c).text level).toList = c.textLines.flatMap (indented level) := by
  rw [Stmt.text, String.toList_join, List.flatMap_map]
  congr 1
  funext l
  simp [line, indented]

theorem hasTrailingBackslash_indented (level : Nat) {l : List Char}
    (h : hasTrailingBackslash l = false) : hasTrailingBackslash (indented level l) = false := by
  refine hasTrailingBackslash_append (hasTrailingBackslash_of_notMem fun hmem => ?_)
    (hasTrailingBackslash_append h (by decide))
  cases List.eq_of_mem_replicate hmem

theorem hasTrailingBackslash_lines (level : Nat) {ls : List (List Char)}
    (h : ∀ l ∈ ls, hasTrailingBackslash l = false) :
    hasTrailingBackslash (ls.flatMap (indented level)) = false := by
  induction ls with
  | nil => rfl
  | cons l ls ih =>
    rw [List.forall_mem_cons] at h
    rw [List.flatMap_cons]
    exact hasTrailingBackslash_append (hasTrailingBackslash_indented level h.1) (ih h.2)

/-- A line is inert if a comment is all that stands on it. -/
theorem inert_indented (level : Nat) {l : List Char} (hsplice : hasTrailingBackslash l = false)
    (hscan : scan .code (l ++ ['\n']) = ([' ', '\n'], .code)) : Inert (indented level l) := by
  refine .of_scan (4 * level) (hasTrailingBackslash_indented level hsplice) ?_
  rw [indented, scan_append, scan_indentation, hscan]

/-! ### The three forms -/

/-- A line comment ends with its line. -/
theorem inert_slashes (level : Nat) {cs : List Char} (hline : '\n' ∉ cs)
    (hends : endsInBackslash cs = false) : Inert (indented level ('/' :: '/' :: cs)) := by
  refine inert_indented level ?_ ?_
  · rw [← hasTrailingBackslash_eq hline] at hends
    exact hasTrailingBackslash_append (a := ['/', '/']) rfl hends
  · show scan .code (['/', '/'] ++ (cs ++ ['\n'])) = _
    rw [scan_append, show scan .code ['/', '/'] = ([' '], .lineComment) from rfl, scan_append,
      scan_lineComment hline]
    rfl

/-- A block comment ends where it is closed. -/
theorem inert_block (level : Nat) {cs : List Char} (hclose : hasClose cs = false)
    (hsplice : hasTrailingBackslash (cs ++ ['*', '/']) = false) :
    Inert (indented level ('/' :: '*' :: cs ++ ['*', '/'])) := by
  refine inert_indented level ?_ ?_
  · exact hasTrailingBackslash_append (a := ['/', '*']) rfl hsplice
  · obtain ⟨m, hm, hscan⟩ := (scan_blockComment cs).1 hclose
    show scan .code (['/', '*'] ++ cs ++ ['*', '/'] ++ ['\n']) = _
    rw [scan_append, scan_append, scan_append,
      show scan .code ['/', '*'] = ([' '], .blockComment) from rfl, hscan, scan_close hm]
    rfl

/-- **A line comment is inert in every form.** -/
theorem inert_lineComment (level : Nat) {cs : List Char} (hline : '\n' ∉ cs) :
    Inert (indented level (lineComment cs)) := by
  unfold lineComment
  split
  · rename_i hends
    exact inert_slashes level hline (by simpa using hends)
  · split
    · rename_i hclose
      -- The backslash stays in its place, as the end of the comment follows it.
      refine inert_block level (by simpa using hclose) ?_
      rw [hasTrailingBackslash_append_cons hline (by decide)]
      decide
    · -- The line both ends in a backslash and closes a block comment, so something is put behind.
      rw [List.cons_append, List.cons_append]
      refine inert_slashes level ?_ ?_
      · rw [List.mem_append, not_or]
        exact ⟨fun h => hline ((trimEnd_isPrefix cs).subset h), by decide⟩
      · rw [List.append_cons, List.append_cons, endsInBackslash_concat]
        rfl

/-! ### Documentation -/

theorem fitsBlock_iff {cs : List Char} :
    fitsBlock cs = true ↔ hasClose cs = false ∧ hasTrailingBackslash cs = false := by
  rw [fitsBlock, any_endsInBackslash, Bool.and_eq_true, Bool.not_eq_true', Bool.not_eq_true']

theorem scan_blockComment_indentation (n : Nat) :
    scan .blockComment (List.replicate n ' ') = ([], .blockComment) := by
  induction n with
  | zero => rfl
  | succ n ih => exact ih

/-- Of lines in a block comment nothing is left, and the comment goes on behind them. -/
theorem scan_blockComment_lines (level : Nat) {ls : List (List Char)}
    (h : ∀ l ∈ ls, hasClose l = false) :
    scan .blockComment (ls.flatMap (indented level)) = ([], .blockComment) := by
  induction ls with
  | nil => rfl
  | cons l ls ih =>
    rw [List.forall_mem_cons] at h
    obtain ⟨m, hm, hscan⟩ := (scan_blockComment l).1 h.1
    have hfeed : scan m ['\n'] = ([], .blockComment) := by
      cases m with
      | blockComment | star => rfl
      | _ => cases hm
    rw [List.flatMap_cons, indented, scan_append, scan_append, scan_blockComment_indentation,
      scan_append, hscan, hfeed, ih h.2]
    rfl

/-- **Documentation is inert as a block comment.** -/
theorem inert_doc (level : Nat) {ls : List (List Char)} (hlines : ∀ l ∈ ls, '\n' ∉ l)
    (hfits : ∀ l ∈ ls, fitsBlock l = true) :
    Inert ((['/', '*'] :: ls.map Text.trimEnd ++ [['*', '/']]).flatMap (indented level)) := by
  have hclose : ∀ l ∈ ls.map Text.trimEnd, hasClose l = false := by
    rw [List.forall_mem_map]
    intro l hl
    obtain ⟨rest, hrest⟩ := trimEnd_isPrefix l
    refine hasClose_of_append (b := rest) ?_
    rw [hrest]
    exact (fitsBlock_iff.1 (hfits l hl)).1
  have hsplice : ∀ l ∈ ls.map Text.trimEnd, hasTrailingBackslash l = false := by
    rw [List.forall_mem_map]
    intro l hl
    have hline : '\n' ∉ Text.trimEnd l := fun h => hlines l hl ((trimEnd_isPrefix l).subset h)
    rw [hasTrailingBackslash_eq hline, endsInBackslash_trimEnd,
      ← hasTrailingBackslash_eq (hlines l hl)]
    exact (fitsBlock_iff.1 (hfits l hl)).2
  -- From here on it does not matter that the lines have been trimmed.
  generalize ls.map Text.trimEnd = body at hclose hsplice
  have hopen : scan .code (indented level ['/', '*']) =
      (List.replicate (4 * level) ' ' ++ [' '], .blockComment) := by
    rw [indented, scan_append, scan_indentation]
    rfl
  have hend : scan .blockComment (indented level ['*', '/']) = (['\n'], .code) := by
    rw [indented, scan_append, scan_blockComment_indentation]
    rfl
  rw [List.cons_append, List.flatMap_cons, List.flatMap_append, List.flatMap_singleton]
  refine .of_scan (4 * level) ?_ ?_
  · refine hasTrailingBackslash_append (hasTrailingBackslash_indented level rfl)
      (hasTrailingBackslash_append ?_ (hasTrailingBackslash_indented level rfl))
    exact hasTrailingBackslash_lines level hsplice
  · rw [scan_append, hopen, scan_append, scan_blockComment_lines level hclose, hend,
      List.append_assoc]
    rfl

/-- **All texts of comments are inert.** -/
theorem inert_textLines (level : Nat) {c : Comment} (h : c.isLinewise = true) :
    Inert (c.textLines.flatMap (indented level)) := by
  cases c with
  | doc lines =>
    have hlines : ∀ l ∈ lines.map String.toList, '\n' ∉ l := by
      simpa [Comment.isLinewise] using h
    rw [Comment.textLines]
    split
    · rename_i hfits
      exact inert_doc level hlines (List.all_eq_true.1 hfits)
    · rename_i hfits
      rw [List.flatMap_map]
      refine Inert.flatMap ?_ fun l hl => inert_lineComment level fun hfeed => ?_
      · intro hnil
        rw [hnil] at hfits
        exact hfits rfl
      · exact hlines l hl ((trimEnd_isPrefix l).subset hfeed)
  | line text =>
    have hline : '\n' ∉ text.toList := by simpa [Comment.isLinewise] using h
    exact Inert.flatMap (List.cons_ne_nil _ _)
      (List.forall_mem_singleton.2 (inert_lineComment level hline))
  | skipped reason source =>
    have hreason : Inert (indented level ("//TODO: " ++ reason.text).toList) := by
      have htext : ("//TODO: " ++ reason.text).toList =
          '/' :: '/' :: ("TODO: " ++ reason.text).toList := by
        rw [String.toList_append, String.toList_append]
        rfl
      -- There are only so many reasons.
      have hplain : '\n' ∉ ("TODO: " ++ reason.text).toList ∧
          endsInBackslash ("TODO: " ++ reason.text).toList = false := by
        cases reason <;> decide +kernel
      rw [htext]
      exact inert_slashes level hplain.1 hplain.2
    rw [Comment.textLines]
    refine Inert.flatMap (List.cons_ne_nil _ _) (List.forall_mem_cons.2 ⟨hreason, ?_⟩)
    split
    · rename_i hfits
      obtain ⟨hclose, hsplice⟩ := fitsBlock_iff.1 hfits
      exact List.forall_mem_singleton.2
        (inert_block level hclose (hasTrailingBackslash_append hsplice (by decide)))
    · rw [List.forall_mem_map]
      exact fun l hl => inert_lineComment level (notMem_of_mem_lines hl)

/-- **Comments are inert.**  However a comment is indented and whatever stands in it, splicing
leaves its text as it is, and what is left of it when comments are removed is white space, of which
the last ends a line.  So the code behind it is read as if it stood alone. -/
theorem comment_inert (white : Char → Bool) (hwhite : ∀ c, white c = true → isBlank c = true)
    (level : Nat) (c : Comment) (hlines : c.isLinewise = true) (rest : List Char) :
    let text := ((Stmt.comment c).text level).toList
    let code := splice white rest
    splice white (text ++ rest) = text ++ code ∧
    ∃ blanks, (∀ b ∈ blanks, b = ' ' ∨ b = '\n') ∧
      scan .code (splice white (text ++ rest)) =
        (blanks ++ '\n' :: (scan .code code).1, (scan .code code).2) := by
  intro text code
  have hinert : Inert text := by
    rw [show text = _ from toList_text_comment level c]
    exact inert_textLines level hlines
  obtain ⟨blanks, hscan, hblanks⟩ := hinert.scanned
  have hsplice : splice white (text ++ rest) = text ++ code :=
    splice_append hwhite hinert.unspliced rest
  refine ⟨hsplice, blanks, hblanks, ?_⟩
  rw [hsplice, scan_append, hscan, List.append_assoc]
  rfl

/-- The white space of C++ within a line. -/
def isLineSpace (c : Char) : Bool := c ∈ [' ', '\t', '\x0b', '\x0c', '\r']

/-- Documentation whose lines end in a backslash, end a block comment, begin one, and do the first
two at once. -/
def hostile : Comment := .doc ["path C:\\\t", "src/*/", "/*", " a */ b \\ \r"]

/-- A statement behind lines that are written in all three forms is read as it stands. -/
theorem hostile_inert :
    let text := ((Stmt.comment hostile).text 2).toList
    let code := "return a / b;\n".toList
    (∀ c, isLineSpace c = true → isBlank c = true) ∧ hostile.isLinewise = true ∧
    ∃ blanks, (∀ b ∈ blanks, b = ' ' ∨ b = '\n') ∧
      scan .code (splice isLineSpace (text ++ code)) = (blanks ++ '\n' :: code, .code) := by
  intro text code
  have hspace : ∀ c, isLineSpace c = true → isBlank c = true := by
    intro c hc
    simp only [isLineSpace, List.mem_cons, List.not_mem_nil, or_false, decide_eq_true_eq] at hc
    rcases hc with rfl | rfl | rfl | rfl | rfl <;> decide
  have hlines : hostile.isLinewise = true := by decide
  have hcode : splice isLineSpace code = code := by
    have hplain : splice isLineSpace (code ++ []) = code ++ splice isLineSpace [] :=
      splice_append hspace (by decide) []
    rwa [List.append_nil, splice, List.append_nil] at hplain
  obtain ⟨-, blanks, hblanks, hscan⟩ := comment_inert isLineSpace hspace 2 hostile hlines code
  refine ⟨hspace, hlines, blanks, hblanks, ?_⟩
  rw [hscan, hcode]
  rfl

end StaticScript.Target
