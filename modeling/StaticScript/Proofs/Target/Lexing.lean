import StaticScript.Target.CommentText
import Mathlib.Data.List.DropRight

/-!
# How comments are read

The first things that C++ does with a text, as far as they decide where comments begin and end.
Lines are spliced first: a backslash goes if only white space follows it on its line, together with
that white space and the line feed (`splice`).  Then the text is read from left to right and every
comment is replaced by a blank (`scan`).  A line comment ends before the line feed, a block comment
behind the first `*/` that follows its opening.  Neither is looked for in literals.

Splicing takes nothing from a text in which no backslash stands before blanks that end a line or the
text (`splice_append`), and this is what the comment writer tests its lines for
(`any_endsInBackslash`).  A backslash at the end of any other text stays where it is if what follows
does not end the line (`splice_append_of_dropLine?`).  Reading a text and then another one is
reading both together (`scan_append`).
-/

namespace StaticScript.Target

open Text (isBlank)

/-! ### Splicing -/

section

variable (white : Char → Bool)

/-- What follows the line at hand, if only white space is left of the line. -/
def dropLine? : List Char → Option (List Char)
  | [] => none
  | c :: cs => if c = '\n' then some cs else if white c then dropLine? cs else none

variable {white} in
theorem exists_of_dropLine? {cs rest : List Char} (h : dropLine? white cs = some rest) :
    ∃ blanks, cs = blanks ++ '\n' :: rest := by
  induction cs with
  | nil => cases h
  | cons c cs ih =>
    rw [dropLine?] at h
    split at h
    · rename_i hc
      exact ⟨[], by rw [hc, Option.some.inj h, List.nil_append]⟩
    · split at h
      · obtain ⟨blanks, rfl⟩ := ih h
        exact ⟨c :: blanks, rfl⟩
      · cases h

variable {white} in
theorem length_of_dropLine? {cs rest : List Char} (h : dropLine? white cs = some rest) :
    rest.length < cs.length := by
  obtain ⟨blanks, rfl⟩ := exists_of_dropLine? h
  rw [List.length_append, List.length_cons]
  omega

/-- Removes every backslash that only white space follows on its line, together with the rest of the
line and the line feed. -/
def splice : List Char → List Char
  | [] => []
  | c :: cs =>
    if c = '\\' then
      match _h : dropLine? white cs with
      | some rest => splice rest
      | none => c :: splice cs
    else c :: splice cs
termination_by cs => cs.length
decreasing_by
  · have := length_of_dropLine? _h
    simp only [List.length_cons]
    omega
  · simp
  · simp

end

section

variable {white : Char → Bool}

theorem splice_of_ne {c : Char} (hc : c ≠ '\\') (cs : List Char) :
    splice white (c :: cs) = c :: splice white cs := by
  rw [splice, if_neg hc]

theorem splice_of_some {cs rest : List Char} (h : dropLine? white cs = some rest) :
    splice white ('\\' :: cs) = splice white rest := by
  rw [splice, if_pos rfl]
  split
  · rename_i hrest
    rw [h] at hrest
    rw [Option.some.inj hrest]
  · rename_i hnone
    rw [h] at hnone
    cases hnone

theorem splice_of_none {cs : List Char} (h : dropLine? white cs = none) :
    splice white ('\\' :: cs) = '\\' :: splice white cs := by
  rw [splice, if_pos rfl]
  split
  · rename_i hrest
    rw [h] at hrest
    cases hrest
  · rfl

variable (white) in
theorem splice_sublist (cs : List Char) : (splice white cs).Sublist cs := by
  fun_induction splice white cs with
  | case1 => exact List.Sublist.slnil
  | case2 cs rest hrest ih =>
    obtain ⟨blanks, rfl⟩ := exists_of_dropLine? hrest
    exact ((ih.cons _).trans (List.sublist_append_right _ _)).cons _
  | case3 cs hnone ih => exact ih.cons_cons _
  | case4 c cs hc ih => exact ih.cons_cons _

/-- A line that is not over goes on in the text behind it. -/
theorem dropLine?_append_of_none {rest : List Char} (h : dropLine? white rest = none)
    (cs : List Char) : dropLine? white (cs ++ rest) = (dropLine? white cs).map (· ++ rest) := by
  induction cs with
  | nil => rw [List.nil_append, h]; rfl
  | cons c cs ih =>
    rw [List.cons_append, dropLine?, dropLine?]
    split
    · rfl
    · split
      · exact ih
      · rfl

/-- **Two texts are spliced apart if the second does not begin with the end of a line.** -/
theorem splice_append_of_dropLine? {rest : List Char} (h : dropLine? white rest = none)
    (cs : List Char) : splice white (cs ++ rest) = splice white cs ++ splice white rest := by
  fun_induction splice white cs with
  | case1 => rfl
  | case2 cs behind hbehind ih =>
    rw [List.cons_append, splice_of_some, ih]
    rw [dropLine?_append_of_none h, hbehind, Option.map_some]
  | case3 cs hnone ih =>
    rw [List.cons_append, splice_of_none, ih]
    · rfl
    · rw [dropLine?_append_of_none h, hnone, Option.map_none]
  | case4 c cs hc ih => rw [List.cons_append, splice_of_ne hc, ih]; rfl

end

/-- Only blanks are left of the line at hand, which ends with the text if not before. -/
def blankToEnd : List Char → Bool
  | [] => true
  | c :: cs => c == '\n' || isBlank c && blankToEnd cs

/-- There is a backslash behind which only blanks are left of its line. -/
def hasTrailingBackslash : List Char → Bool
  | [] => false
  | c :: cs => c == '\\' && blankToEnd cs || hasTrailingBackslash cs

section

variable {white : Char → Bool} (hwhite : ∀ c, white c = true → isBlank c = true)
include hwhite

theorem dropLine?_append {cs : List Char} (h : blankToEnd cs = false) (rest : List Char) :
    dropLine? white (cs ++ rest) = none := by
  induction cs with
  | nil => cases h
  | cons c cs ih =>
    rw [blankToEnd, Bool.or_eq_false_iff, beq_eq_false_iff_ne] at h
    obtain ⟨hfeed, hblank⟩ := h
    rw [List.cons_append, dropLine?, if_neg hfeed]
    split
    · rename_i hc
      rw [hwhite c hc, Bool.true_and] at hblank
      exact ih hblank
    · rfl

/-- **Splicing takes nothing from a text without trailing backslashes**, whatever follows it. -/
theorem splice_append {cs : List Char} (h : hasTrailingBackslash cs = false) (rest : List Char) :
    splice white (cs ++ rest) = cs ++ splice white rest := by
  induction cs with
  | nil => rfl
  | cons c cs ih =>
    rw [hasTrailingBackslash, Bool.or_eq_false_iff] at h
    obtain ⟨hc, hcs⟩ := h
    by_cases hslash : c = '\\'
    · subst hslash
      rw [List.cons_append, splice_of_none (dropLine?_append hwhite hc rest), ih hcs]
      rfl
    · rw [List.cons_append, splice_of_ne hslash, ih hcs]
      rfl

theorem splice_eq_self {cs : List Char} (h : hasTrailingBackslash cs = false) :
    splice white cs = cs := by
  have happend := splice_append hwhite h []
  rwa [splice, List.append_nil] at happend

end

/-! ### Trailing backslashes -/

theorem blankToEnd_of_append {a b : List Char} (h : blankToEnd (a ++ b) = true) :
    blankToEnd a = true := by
  induction a with
  | nil => rfl
  | cons c a ih =>
    rw [List.cons_append, blankToEnd, Bool.or_eq_true, Bool.and_eq_true] at h
    rw [blankToEnd, Bool.or_eq_true, Bool.and_eq_true]
    exact h.imp_right fun hc => ⟨hc.1, ih hc.2⟩

theorem hasTrailingBackslash_append {a b : List Char} (ha : hasTrailingBackslash a = false)
    (hb : hasTrailingBackslash b = false) : hasTrailingBackslash (a ++ b) = false := by
  induction a with
  | nil => exact hb
  | cons c a ih =>
    rw [hasTrailingBackslash, Bool.or_eq_false_iff] at ha
    obtain ⟨hc, ha⟩ := ha
    rw [List.cons_append, hasTrailingBackslash, ih ha, Bool.or_false, Bool.and_eq_false_iff]
    rw [Bool.and_eq_false_iff] at hc
    refine hc.imp_right fun hblank => ?_
    -- The line goes on into `b` only if it has not ended in `a`, where it is not blank already.
    rw [Bool.eq_false_iff] at hblank ⊢
    exact fun h => hblank (blankToEnd_of_append h)

/-- A text in which no backslash occurs has no trailing one. -/
theorem hasTrailingBackslash_of_notMem {cs : List Char} (h : '\\' ∉ cs) :
    hasTrailingBackslash cs = false := by
  induction cs with
  | nil => rfl
  | cons c cs ih =>
    rw [List.mem_cons, not_or] at h
    rw [hasTrailingBackslash, ih h.2, Bool.or_false, beq_false_of_ne (Ne.symm h.1),
      Bool.false_and]

/-- A backslash at the end of a line is no trailing one if something follows it on the line. -/
theorem hasTrailingBackslash_append_cons {cs : List Char} (h : '\n' ∉ cs) {c : Char}
    (hc : isBlank c = false) (rest : List Char) :
    hasTrailingBackslash (cs ++ c :: rest) = hasTrailingBackslash (c :: rest) := by
  have hfeed : c ≠ '\n' := by
    rintro rfl
    cases hc
  have hblank : ∀ cs : List Char, '\n' ∉ cs → blankToEnd (cs ++ c :: rest) = false := by
    intro cs hcs
    induction cs with
    | nil => rw [List.nil_append, blankToEnd, hc, beq_false_of_ne hfeed]; rfl
    | cons d cs ih =>
      rw [List.mem_cons, not_or] at hcs
      rw [List.cons_append, blankToEnd, ih hcs.2, beq_false_of_ne (Ne.symm hcs.1), Bool.and_false]
      rfl
  induction cs with
  | nil => rfl
  | cons d cs ih =>
    rw [List.mem_cons, not_or] at h
    rw [List.cons_append, hasTrailingBackslash, hblank cs h.2, ih h.2, Bool.and_false,
      Bool.false_or]

theorem trimEnd_eq_rdropWhile (cs : List Char) : Text.trimEnd cs = cs.rdropWhile isBlank := rfl

theorem trimEnd_isPrefix (cs : List Char) : Text.trimEnd cs <+: cs := List.rdropWhile_prefix _ _

theorem endsInBackslash_concat (cs : List Char) (c : Char) :
    endsInBackslash (cs ++ [c]) = if isBlank c then endsInBackslash cs else c == '\\' := by
  unfold endsInBackslash
  rw [trimEnd_eq_rdropWhile]
  split
  · rename_i hc
    rw [List.rdropWhile_concat_pos _ _ _ hc]
    rfl
  · rename_i hc
    rw [List.rdropWhile_concat_neg _ _ _ hc, List.getLast?_concat]
    rfl

theorem endsInBackslash_trimEnd (cs : List Char) :
    endsInBackslash (Text.trimEnd cs) = endsInBackslash cs := by
  rw [endsInBackslash, endsInBackslash, trimEnd_eq_rdropWhile, trimEnd_eq_rdropWhile,
    List.rdropWhile_idempotent]

theorem endsInBackslash_cons (c : Char) (cs : List Char) :
    endsInBackslash (c :: cs) = (c == '\\' && cs.all isBlank || endsInBackslash cs) := by
  induction cs using List.reverseRecOn with
  | nil =>
    rw [← List.nil_append [c], endsInBackslash_concat]
    by_cases hc : c = '\\'
    · subst hc
      decide
    · rw [beq_false_of_ne hc]
      split <;> rfl
  | append_singleton cs d ih =>
    rw [← List.cons_append, endsInBackslash_concat, endsInBackslash_concat, ih, List.all_append]
    by_cases hd : isBlank d = true
    · simp [hd]
    · simp [hd]

/-- The line ending, which is blank, has no bearing on whether a line ends in a backslash. -/
theorem endsInBackslash_dropEnding (piece : List Char) :
    endsInBackslash (Text.dropEnding piece) = endsInBackslash piece := by
  have hfeed : ∀ cs : List Char, endsInBackslash (cs ++ ['\n']) = endsInBackslash cs := fun cs =>
    (endsInBackslash_concat cs '\n').trans (if_pos (by decide))
  have hreturn : ∀ cs : List Char, endsInBackslash (cs ++ ['\r']) = endsInBackslash cs := fun cs =>
    (endsInBackslash_concat cs '\r').trans (if_pos (by decide))
  unfold Text.dropEnding
  split
  · rename_i rest h
    rw [List.reverse_eq_cons_iff, List.reverse_cons] at h
    rw [h, hfeed, hreturn]
  · rename_i rest h
    rw [List.reverse_eq_cons_iff] at h
    rw [h, hfeed]
  · rfl

theorem eq_nil_of_pieces {cs : List Char} (h : Text.pieces cs = []) : cs = [] := by
  rw [← Text.flatten_pieces cs, h]
  rfl

/-- The line at hand is blank to its end if its characters are. -/
theorem blankToEnd_eq {cs p : List Char} {ps : List (List Char)} (h : Text.pieces cs = p :: ps) :
    blankToEnd cs = p.all isBlank := by
  induction cs generalizing p ps with
  | nil => cases h
  | cons c cs ih =>
    rw [Text.pieces] at h
    split at h
    · rename_i hc
      obtain ⟨rfl, -⟩ := List.cons.inj h
      rw [blankToEnd, hc]
      rfl
    · rename_i hc
      cases hpieces : Text.pieces cs with
      | nil =>
        rw [hpieces] at h
        obtain ⟨rfl, -⟩ := List.cons.inj h
        obtain rfl := eq_nil_of_pieces hpieces
        simp [blankToEnd, hc]
      | cons q qs =>
        rw [hpieces] at h
        obtain ⟨rfl, -⟩ := List.cons.inj h
        rw [blankToEnd, ih hpieces, beq_false_of_ne hc]
        rfl

/-- **The lines of a text end in a backslash exactly if it has a trailing one.** -/
theorem any_endsInBackslash (cs : List Char) :
    (Text.lines cs).any endsInBackslash = hasTrailingBackslash cs := by
  have hlines : (Text.lines cs).any endsInBackslash = (Text.pieces cs).any endsInBackslash := by
    rw [Text.lines, List.any_map]
    exact congrArg _ (funext endsInBackslash_dropEnding)
  rw [hlines]
  clear hlines
  induction cs with
  | nil => rfl
  | cons c cs ih =>
    rw [Text.pieces, hasTrailingBackslash, ← ih]
    split
    · rename_i hc
      rw [hc]
      rfl
    · cases hpieces : Text.pieces cs with
      | nil =>
        obtain rfl := eq_nil_of_pieces hpieces
        rw [List.any_cons, endsInBackslash_cons, Bool.or_assoc]
        rfl
      | cons p ps =>
        rw [List.any_cons, List.any_cons, endsInBackslash_cons, blankToEnd_eq hpieces,
          Bool.or_assoc]

theorem hasTrailingBackslash_eq {cs : List Char} (h : '\n' ∉ cs) :
    hasTrailingBackslash cs = endsInBackslash cs := by
  have hblank : ∀ cs : List Char, '\n' ∉ cs → blankToEnd cs = cs.all isBlank := by
    intro cs hcs
    induction cs with
    | nil => rfl
    | cons c cs ih =>
      rw [List.mem_cons, not_or] at hcs
      rw [blankToEnd, ih hcs.2, beq_false_of_ne (Ne.symm hcs.1), Bool.false_or, List.all_cons]
  induction cs with
  | nil => rfl
  | cons c cs ih =>
    rw [List.mem_cons, not_or] at h
    rw [hasTrailingBackslash, endsInBackslash_cons, ih h.2, hblank cs h.2]

/-- There is no line feed in a line. -/
theorem notMem_of_mem_lines {cs l : List Char} (h : l ∈ Text.lines cs) : '\n' ∉ l := by
  -- In a piece a line feed can only be the last character, and this one is dropped.
  have hpieces : ∀ p ∈ Text.pieces cs, '\n' ∉ p.dropLast := by
    clear h
    induction cs with
    | nil => exact fun p hp => absurd hp List.not_mem_nil
    | cons c cs ih =>
      rw [Text.pieces]
      split
      · exact List.forall_mem_cons.2 ⟨List.not_mem_nil, ih⟩
      · rename_i hc
        cases hcs : Text.pieces cs with
        | nil => exact List.forall_mem_singleton.2 List.not_mem_nil
        | cons p ps =>
          rw [hcs, List.forall_mem_cons] at ih
          refine List.forall_mem_cons.2 ⟨?_, ih.2⟩
          by_cases hp : p = []
          · rw [hp]
            exact List.not_mem_nil
          · rw [List.dropLast_cons_of_ne_nil hp, List.mem_cons, not_or]
            exact ⟨Ne.symm hc, ih.1⟩
  obtain ⟨p, hp, rfl⟩ := List.mem_map.1 h
  have hlast := hpieces p hp
  unfold Text.dropEnding
  split
  · rename_i rest hrest
    rw [List.reverse_eq_cons_iff, List.reverse_cons] at hrest
    rw [hrest, List.dropLast_concat] at hlast
    exact fun hmem => hlast (List.mem_append_left _ hmem)
  · rename_i rest hrest
    rw [List.reverse_eq_cons_iff] at hrest
    rwa [hrest, List.dropLast_concat] at hlast
  · rename_i hfeed
    rcases List.eq_nil_or_concat p with rfl | ⟨front, c, rfl⟩
    · exact List.not_mem_nil
    · rw [List.concat_eq_append] at hlast hfeed ⊢
      rw [List.dropLast_concat] at hlast
      rw [List.mem_append, List.mem_singleton, not_or]
      refine ⟨hlast, ?_⟩
      rintro rfl
      exact hfeed front.reverse List.reverse_concat

/-! ### Reading -/

/-- Where in a text one is. -/
inductive Mode where
  | code
  /-- Behind a slash, which may begin a comment. -/
  | slash
  | lineComment
  | blockComment
  /-- In a block comment, behind a star, which may begin its end. -/
  | star
  /-- In a literal that ends with the same quote. -/
  | literal (quote : Char)
  /-- In a literal, behind a backslash. -/
  | escape (quote : Char)
deriving DecidableEq

/-- Where one is behind a character of the code that is no slash. -/
def Mode.behind (c : Char) : Mode := if c = '"' ∨ c = '\x27' then .literal c else .code

/-- Reads a character: what remains of the text, and where one is behind it. -/
def Mode.read : Mode → Char → List Char × Mode
  | .code, c => if c = '/' then ([], .slash) else ([c], .behind c)
  | .slash, c =>
    if c = '/' then ([' '], .lineComment)
    else if c = '*' then ([' '], .blockComment)
    else (['/', c], .behind c)
  | .lineComment, c => if c = '\n' then ([c], .code) else ([], .lineComment)
  | .blockComment, c => ([], if c = '*' then .star else .blockComment)
  | .star, c => ([], if c = '/' then .code else if c = '*' then .star else .blockComment)
  | .literal quote, c =>
    ([c], if c = quote then .code else if c = '\\' then .escape quote else .literal quote)
  | .escape quote, c => ([c], .literal quote)

/-- Reads a text, in which every comment becomes a blank. -/
def scan (m : Mode) : List Char → List Char × Mode
  | [] => ([], m)
  | c :: cs => ((m.read c).1 ++ (scan (m.read c).2 cs).1, (scan (m.read c).2 cs).2)

/-- **Two texts are read one after the other.** -/
theorem scan_append (m : Mode) (a b : List Char) :
    scan m (a ++ b) = ((scan m a).1 ++ (scan (scan m a).2 b).1, (scan (scan m a).2 b).2) := by
  induction a generalizing m with
  | nil => rfl
  | cons c a ih => simp only [List.cons_append, scan, ih, List.append_assoc]

/-- Blanks in the code remain. -/
theorem scan_indentation (n : Nat) :
    scan .code (List.replicate n ' ') = (List.replicate n ' ', .code) := by
  induction n with
  | zero => rfl
  | succ n ih =>
    rw [List.replicate_succ, scan]
    simp [Mode.read, Mode.behind, ih]

/-- A line comment goes on to the end of its line. -/
theorem scan_lineComment {cs : List Char} (h : '\n' ∉ cs) :
    scan .lineComment cs = ([], .lineComment) := by
  induction cs with
  | nil => rfl
  | cons c cs ih =>
    rw [List.mem_cons, not_or] at h
    simp only [scan, Mode.read, if_neg (Ne.symm h.1), ih h.2]
    rfl

/-- One is in a block comment. -/
def Mode.inBlock : Mode → Bool
  | .blockComment | .star => true
  | _ => false

theorem hasClose_of_cons {c : Char} {cs : List Char} (h : hasClose (c :: cs) = false) :
    hasClose cs = false := by
  unfold hasClose at h
  split at h
  · cases h
  · rename_i heq
    obtain ⟨-, rfl⟩ := List.cons.inj heq
    exact h
  · rename_i heq
    cases heq

theorem hasClose_of_append {a b : List Char} (h : hasClose (a ++ b) = false) :
    hasClose a = false := by
  induction a with
  | nil => rfl
  | cons c a ih =>
    have ha := ih (hasClose_of_cons h)
    unfold hasClose
    split
    · rename_i heq
      rw [heq] at h
      cases h
    · rename_i heq
      obtain ⟨-, rfl⟩ := List.cons.inj heq
      exact ha
    · rfl

/-- A block comment goes on to the first `*/`, whose star may stand before the text. -/
theorem scan_blockComment (cs : List Char) :
    (hasClose cs = false → ∃ m, m.inBlock = true ∧ scan .blockComment cs = ([], m)) ∧
      (hasClose ('*' :: cs) = false → ∃ m, m.inBlock = true ∧ scan .star cs = ([], m)) := by
  induction cs with
  | nil => exact ⟨fun _ => ⟨_, rfl, rfl⟩, fun _ => ⟨_, rfl, rfl⟩⟩
  | cons c cs ih =>
    -- Behind a character that is not the end, it only matters whether it is a star.
    have hstep : hasClose (c :: cs) = false → ∃ m, m.inBlock = true ∧
        scan (if c = '*' then .star else .blockComment) cs = ([], m) := by
      intro h
      split
      · rename_i hc
        rw [hc] at h
        exact ih.2 h
      · exact ih.1 (hasClose_of_cons h)
    refine ⟨hstep, fun h => ?_⟩
    have hslash : c ≠ '/' := by
      rintro rfl
      cases h
    simp only [scan, Mode.read, if_neg hslash]
    exact hstep (hasClose_of_cons h)

/-- What closes a block comment does so wherever in it one is. -/
theorem scan_close {m : Mode} (h : m.inBlock = true) : scan m ['*', '/'] = ([], .code) := by
  cases m with
  | blockComment | star => rfl
  | _ => cases h

end StaticScript.Target
