import StaticScript.Command.Run
import Mathlib.Data.List.Basic

/-!
# Files that are written apart

The files made from a script stand in its directory and are named after its stem.  The place of a
file is the place of the directory with the name of the file behind it (`Path.place_join`), because
a stem has no slash in it and a suffix makes it a name.  So a program and the records of a script
never have one place, whatever scripts they are of (`place_programFile_ne`), and the records of two
scripts have one place exactly if their programs have (`place_recordsFile_eq_iff`).

**Main theorem** (`Command.outputs_apart`): no collision is found exactly if no two programs have
one place, and then no two of all files that are written have one place.
-/

namespace StaticScript

/-! ### Places of paths -/

namespace Path

theorem segments_ne_nil (cs : List Char) : segments cs ≠ [] := by
  cases cs with
  | nil => simp [segments]
  | cons c cs =>
    unfold segments
    repeat' split
    all_goals simp

theorem segments_cons {c : Char} (hc : c ≠ '/') (cs : List Char) :
    ∃ s ss, segments cs = s :: ss ∧ segments (c :: cs) = (c :: s) :: ss := by
  obtain ⟨s, ss, hcs⟩ := List.exists_cons_of_ne_nil (segments_ne_nil cs)
  exact ⟨s, ss, hcs, by simp [segments, hc, hcs]⟩

/-- A slash divides what is before it from what is behind it. -/
theorem segments_append_slash (as bs : List Char) :
    segments (as ++ '/' :: bs) = segments as ++ segments bs := by
  induction as with
  | nil => simp [segments]
  | cons c as ih =>
    by_cases hc : c = '/'
    · simp [segments, hc, ih]
    · obtain ⟨s, ss, hs, hcons⟩ := segments_cons hc as
      obtain ⟨t, ts, ht, hcons'⟩ := segments_cons hc (as ++ '/' :: bs)
      rw [ih, hs, List.cons_append, List.cons.injEq] at ht
      rw [List.cons_append, hcons', hcons, List.cons_append, ht.1, ht.2]

theorem segments_of_not_mem {cs : List Char} (h : '/' ∉ cs) : segments cs = [cs] := by
  induction cs with
  | nil => rfl
  | cons c cs ih =>
    obtain ⟨hc, hcs⟩ := not_or.1 (List.mem_cons.not.1 h)
    simp [segments, Ne.symm hc, ih hcs]

theorem not_mem_of_mem_segments {cs s : List Char} (h : s ∈ segments cs) : '/' ∉ s := by
  induction cs generalizing s with
  | nil => simp [List.mem_singleton.1 h]
  | cons c cs ih =>
    by_cases hc : c = '/'
    · simp only [segments, hc, ↓reduceIte, List.mem_cons] at h
      rcases h with rfl | h
      · simp
      · exact ih h
    · obtain ⟨t, ts, ht, hcons⟩ := segments_cons hc cs
      rw [ht] at ih
      rw [hcons] at h
      rcases List.mem_cons.1 h with rfl | h
      · exact List.mem_cons.not.2 (not_or.2 ⟨Ne.symm hc, ih List.mem_cons_self⟩)
      · exact ih (List.mem_cons_of_mem _ h)

/-- What is behind a path does not move its anchor, nor does it make a word of a lone dot. -/
theorem anchored_append {cs t : List Char} (hcs : cs ≠ []) (ht : cs = ['.'] → t.head? = some '/') :
    anchored (cs ++ t) = ((anchored cs).1, (anchored cs).2 ++ t) := by
  obtain ⟨c, cs, rfl⟩ := List.exists_cons_of_ne_nil hcs
  by_cases hslash : c = '/'
  · subst hslash
    rfl
  by_cases hdot : c = '.'
  · subst hdot
    cases cs with
    | nil =>
      obtain ⟨u, rfl⟩ := List.head?_eq_some_iff.1 (ht rfl)
      rfl
    | cons d cs =>
      by_cases hd : d = '/'
      · subst hd
        rfl
      · simp [anchored, hd]
  · simp [anchored, hslash, hdot]

/-- The anchor of a path takes at most one character off it. -/
theorem anchored_suffix (cs : List Char) : (anchored cs).2 <:+ cs := by
  unfold anchored
  split
  · exact List.suffix_cons _ _
  · exact List.nil_suffix
  · exact List.suffix_cons _ _
  · exact List.suffix_rfl

/-- Joined paths have one slash between them, which the directory may end with. -/
theorem toList_join (dir : Path) (name : String) (hdir : dir ≠ "") :
    (∃ front, dir.toList = front ++ ['/'] ∧ (dir.join name).toList = dir.toList ++ name.toList) ∨
      (dir.join name).toList = dir.toList ++ '/' :: name.toList := by
  unfold join
  split
  · rename_i hlast
    exact absurd (by simpa using hlast) hdir
  · rename_i hlast
    obtain ⟨front, hfront⟩ := List.getLast?_eq_some_iff.1 hlast
    exact .inl ⟨front, hfront, String.toList_append ..⟩
  · exact .inr (by simp)

theorem place_eq (p : Path) : p.place =
    ((anchored p.toList).1, (segments (anchored p.toList).2).filter isName) := rfl

/-- The names of a path with a name behind a slash. -/
theorem filter_segments_append_slash {name : List Char} (hslash : '/' ∉ name)
    (hname : isName name = true) (cs : List Char) :
    (segments (cs ++ '/' :: name)).filter isName = (segments cs).filter isName ++ [name] := by
  rw [segments_append_slash, List.filter_append, segments_of_not_mem hslash,
    List.filter_cons_of_pos hname, List.filter_nil]

/-- A name in a directory is the last name of its place. -/
theorem place_join {dir : Path} {name : String} (hdir : dir ≠ "") (hslash : '/' ∉ name.toList)
    (hname : isName name.toList = true) :
    (dir.join name).place = (dir.place.1, dir.place.2 ++ [name.toList]) := by
  have hcs : dir.toList ≠ [] := by simpa using hdir
  rw [place_eq, place_eq]
  rcases toList_join dir name hdir with ⟨front, hfront, hjoin⟩ | hjoin
  · have hdot : dir.toList = ['.'] → name.toList.head? = some '/' := by
      intro h
      have hlast := congrArg List.getLast? (hfront.symm.trans h)
      simp at hlast
    have hrest : (anchored dir.toList).2 <:+ front ++ ['/'] := hfront ▸ anchored_suffix _
    rw [hjoin, anchored_append hcs hdot]
    -- What follows the anchor is empty, as in `/`, or ends with the slash of the directory.
    rcases List.suffix_concat_iff.1 hrest with hnil | ⟨before, hbefore, -⟩
    · simp only [hnil, List.nil_append, segments_of_not_mem hslash,
        List.filter_cons_of_pos hname, List.filter_nil]
      rfl
    · have hempty :
          (segments (before ++ ['/'])).filter isName = (segments before).filter isName := by
        rw [segments_append_slash]
        simp [segments, isName]
      simp only [hbefore, List.append_assoc, List.cons_append, List.nil_append, hempty,
        filter_segments_append_slash hslash hname]
  · rw [hjoin, anchored_append hcs fun _ => rfl]
    exact congrArg _ (filter_segments_append_slash hslash hname _)

theorem mem_of_lastName? {ss before : List (List Char)} {name : List Char}
    (h : lastName? ss = some (name, before)) : name ∈ ss := by
  unfold lastName? at h
  split at h
  · cases h
  · rename_i hdrop
    cases h
    have hmem : name ∈ ss.reverse.dropWhile fun s => !isName s := by simp [hdrop]
    exact List.mem_reverse.1 ((List.dropWhile_suffix _).subset hmem)

/-- The name of a file has no slash in it. -/
theorem not_mem_of_fileName? {p : Path} {name : String} (h : p.fileName? = some name) :
    '/' ∉ name.toList := by
  unfold fileName? at h
  split at h
  · rename_i last before hlast
    split at h
    · cases h
    · rw [← Option.some.inj h, String.toList_ofList]
      exact not_mem_of_mem_segments (mem_of_lastName? hlast)
  · cases h

end Path

/-! ### Files made from a script -/

namespace Command

theorem not_mem_stem (input : Path) : '/' ∉ (stem input).toList := by
  have hname : '/' ∉ (input.fileName?.getD "").toList := by
    cases h : input.fileName? with
    | none => simp
    | some name => exact Path.not_mem_of_fileName? h
  unfold stem
  extract_lets name
  split
  · rwa [String.toList_ofList]
  · rw [String.toList_ofList]
    exact fun h => hname (List.takeWhile_subset _ h)

theorem directory_ne_empty (output : Option Path) (input : Path) : directory output input ≠ "" := by
  unfold directory
  split
  · decide
  · decide
  · assumption

/-- The place of a file that is named after a script, with a suffix. -/
theorem place_file (output : Option Path) (input : Path) {suffix : String}
    (hslash : '/' ∉ suffix.toList) (hlength : 2 ≤ suffix.toList.length) :
    ((directory output input).join (stem input ++ suffix)).place =
      ((directory output input).place.1,
        (directory output input).place.2 ++ [(stem input).toList ++ suffix.toList]) := by
  have hname : Path.isName ((stem input).toList ++ suffix.toList) = true := by
    have hdot : (stem input).toList ++ suffix.toList ≠ ['.'] := by
      intro h
      have hlength' := congrArg List.length h
      rw [List.length_append, List.length_singleton] at hlength'
      omega
    have hne : suffix.toList ≠ [] := by
      intro h
      simp [h] at hlength
    simp [Path.isName, hdot, hne]
  rw [← String.toList_append] at hname ⊢
  refine Path.place_join (directory_ne_empty output input) ?_ hname
  rw [String.toList_append, List.mem_append, not_or]
  exact ⟨not_mem_stem input, hslash⟩

theorem place_programFile (output : Option Path) (input : Path) :
    (programFile output input).place = ((directory output input).place.1,
      (directory output input).place.2 ++ [(stem input).toList ++ ".cpp".toList]) :=
  place_file output input (by decide) (by decide)

theorem place_recordsFile (output : Option Path) (input : Path) :
    (recordsFile output input).place = ((directory output input).place.1,
      (directory output input).place.2 ++ [(stem input).toList ++ ".diagnostics.json".toList]) :=
  place_file output input (by decide) (by decide)

/-- The records of two scripts have one place exactly if their programs have. -/
theorem place_recordsFile_eq_iff {output : Option Path} {a b : Path} :
    (recordsFile output a).place = (recordsFile output b).place ↔
      (programFile output a).place = (programFile output b).place := by
  simp only [place_programFile, place_recordsFile, Prod.mk.injEq, List.append_singleton_inj,
    List.append_cancel_right_eq]

/-- No program has the place of the records of a script. -/
theorem place_programFile_ne (output : Option Path) (a b : Path) :
    (programFile output a).place ≠ (recordsFile output b).place := by
  intro h
  rw [place_programFile, place_recordsFile, Prod.mk.injEq, List.append_singleton_inj] at h
  have hlast := congrArg List.getLast? h.2.2
  have hcpp : ".cpp".toList = ".cp".toList ++ ['p'] := by decide
  have hjson : ".diagnostics.json".toList = ".diagnostics.jso".toList ++ ['n'] := by decide
  rw [hcpp, hjson, ← List.append_assoc, ← List.append_assoc] at hlast
  simp at hlast

/-! ### Collisions -/

theorem collisionAfter?_eq_none_iff {output : Option Path} {earlier inputs : List Path} :
    collisionAfter? output earlier inputs = none ↔
      (∀ a ∈ earlier, ∀ b ∈ inputs, (programFile output a).place ≠ (programFile output b).place) ∧
        inputs.Pairwise fun a b => (programFile output a).place ≠ (programFile output b).place := by
  induction inputs generalizing earlier with
  | nil => simp [collisionAfter?]
  | cons input inputs ih =>
    simp only [collisionAfter?]
    cases hfind : earlier.find? fun e =>
        (programFile output e).place == (programFile output input).place with
    | some first =>
      have heq := List.find?_some hfind
      simp only [reduceCtorEq, false_iff]
      intro h
      exact h.1 first (List.mem_of_find?_eq_some hfind) input List.mem_cons_self (beq_iff_eq.1 heq)
    | none =>
      -- The script is apart from those before it, and is one of them for those behind it.
      have hinput : ∀ a ∈ earlier,
          (programFile output a).place ≠ (programFile output input).place := by
        simpa using hfind
      simp only [ih, List.pairwise_cons, List.forall_mem_append, List.forall_mem_singleton,
        List.forall_mem_cons]
      constructor
      · rintro ⟨⟨hearlier, hbehind⟩, hinputs⟩
        exact ⟨fun a ha => ⟨hinput a ha, hearlier a ha⟩, hbehind, hinputs⟩
      · rintro ⟨hearlier, hbehind, hinputs⟩
        exact ⟨⟨fun a ha => (hearlier a ha).2, hbehind⟩, hinputs⟩

/-- The files that are written for scripts. -/
def files (output : Option Path) (inputs : List Path) : List Path :=
  inputs.flatMap fun input => [programFile output input, recordsFile output input]

/-- Where programs are apart, all files are. -/
theorem pairwise_files {output : Option Path} {inputs : List Path}
    (h : inputs.Pairwise fun a b => (programFile output a).place ≠ (programFile output b).place) :
    (files output inputs).Pairwise fun p q => p.place ≠ q.place := by
  rw [files, List.pairwise_flatMap]
  constructor
  · intro input _
    simpa using place_programFile_ne output input input
  · refine h.imp fun {a b} hab p hp q hq => ?_
    simp only [List.mem_cons, List.not_mem_nil, or_false] at hp hq
    rcases hp with rfl | rfl <;> rcases hq with rfl | rfl
    · exact hab
    · exact place_programFile_ne output a b
    · exact (place_programFile_ne output b a).symm
    · exact place_recordsFile_eq_iff.not.2 hab

/-! ### Writing -/

/-- A computer on which nothing fails, and which notes the files that are written. -/
abbrev Recorder := StateM (List Path)

instance : Host Recorder where
  read _ := return .error .notFound
  isFile _ := return false
  makeDirectory _ := return .ok ()
  write p _ := fun written => (.ok (), written ++ [p])
  out _ := return ()
  err _ := return ()

/-- The files that are written, one script after the other, with all records. -/
def written (output : Option Path) (lowered : Path → Lowering.Output) (inputs : List Path) :
    List Path :=
  ((inputs.forM fun input =>
    writeFiles (m := Recorder) output true input (lowered input)).run []).2

theorem makeDirectories_recorder (p : Path) :
    makeDirectories (m := Recorder) p = pure (.ok ()) := by
  unfold makeDirectories
  cases p.ancestors <;> rfl

theorem writeFiles_recorder (output : Option Path) (input : Path) (lowered : Lowering.Output)
    (written : List Path) :
    (writeFiles (m := Recorder) output true input lowered).run written =
      (.ok (), written ++ [programFile output input, recordsFile output input]) := by
  rw [writeFiles, makeDirectories_recorder, ← List.singleton_append, ← List.append_assoc]
  rfl

theorem run_bind_of_run {α β : Type} {x : ExceptT RunError Recorder α}
    {f : α → ExceptT RunError Recorder β} {a : α} {before after : List Path}
    (h : x.run before = (.ok a, after)) : (x >>= f).run before = (f a).run after := by
  have h' : StateT.run x.run before = pure (.ok a, after) := h
  change StateT.run (x >>= f).run before = _
  rw [ExceptT.run_bind, StateT.run_bind, h', pure_bind]
  rfl

theorem forM_writeFiles_recorder (output : Option Path) (lowered : Path → Lowering.Output)
    (inputs before : List Path) :
    (inputs.forM fun input =>
      writeFiles (m := Recorder) output true input (lowered input)).run before =
        (.ok (), before ++ files output inputs) := by
  induction inputs generalizing before with
  | nil =>
    rw [files, List.flatMap_nil, List.append_nil]
    rfl
  | cons input inputs ih =>
    rw [List.forM, run_bind_of_run (writeFiles_recorder output input (lowered input) before), ih,
      List.append_assoc]
    rfl

theorem written_eq (output : Option Path) (lowered : Path → Lowering.Output) (inputs : List Path) :
    written output lowered inputs = files output inputs := by
  rw [written, forM_writeFiles_recorder, List.nil_append]

/-- **Files never collide.**  No collision is found exactly if the programs have different places;
and if none is found, all files that are written, programs and records, have different places. -/
theorem outputs_apart (output : Option Path) (inputs : List Path) :
    (collision? output inputs = none ↔
      inputs.Pairwise fun a b => (programFile output a).place ≠ (programFile output b).place) ∧
      ∀ lowered : Path → Lowering.Output,
        written output lowered inputs = files output inputs ∧
          (collision? output inputs = none →
            (written output lowered inputs).Pairwise fun p q => p.place ≠ q.place) := by
  have hnone : collision? output inputs = none ↔
      inputs.Pairwise fun a b => (programFile output a).place ≠ (programFile output b).place := by
    simp [collision?, collisionAfter?_eq_none_iff]
  refine ⟨hnone, fun lowered => ⟨written_eq output lowered inputs, fun h => ?_⟩⟩
  rw [written_eq]
  exact pairwise_files (hnone.1 h)

example : (collision? none ["a/x.json", "a/.x", "b/x.json", "a//x.ast.json"]).isSome = true := by
  decide +kernel

end Command

end StaticScript
