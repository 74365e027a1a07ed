/-!
# Paths

A path is a text.  Slashes divide it into segments; empty segments and dots say nothing, except
that a leading slash anchors the path at the root and a leading dot at the working directory.  Two
paths are the same place when they have the same anchor and the same names (`Path.place`); no look
at the files is taken, so `a/../b` is not the same place as `b`.

These are the paths of Unix, as far as they are UTF-8: only the slash divides them, there are no
drives, and the name of a file is a text as it stands, with no bytes in it to be replaced.
-/

namespace StaticScript

/-- A path as it is written. -/
abbrev Path := String

namespace Path

/-- Where a path starts. -/
inductive Anchor where
  /-- At the root. -/
  | root
  /-- At the working directory, said by a dot. -/
  | here
  /-- At the working directory, without a word. -/
  | silent
deriving DecidableEq

/-- The text of an anchor. -/
def Anchor.text : Anchor → List Char
  | .root => ['/']
  | .here => ['.']
  | .silent => []

/-- The anchor of a path and what follows it. -/
def anchored : List Char → Anchor × List Char
  | '/' :: cs => (.root, cs)
  | ['.'] => (.here, [])
  | '.' :: '/' :: cs => (.here, '/' :: cs)
  | cs => (.silent, cs)

/-- The segments between slashes. -/
def segments : List Char → List (List Char)
  | [] => [[]]
  | c :: cs =>
    if c = '/' then [] :: segments cs
    else match segments cs with
      | [] => [[c]]
      | s :: ss => (c :: s) :: ss

/-- Segments with slashes between them. -/
def joined : List (List Char) → List Char
  | [] => []
  | [s] => s
  | s :: ss => s ++ '/' :: joined ss

/-- A segment says something. -/
def isName (segment : List Char) : Bool := !segment.isEmpty && segment != ['.']

/-- The place of a path: its anchor and its names. -/
def place (p : Path) : Anchor × List (List Char) :=
  let (anchor, rest) := anchored p.toList
  (anchor, (segments rest).filter isName)

/-- The last name of a path and the segments in front of it, the last of them first. -/
def lastName? (segments : List (List Char)) : Option (List Char × List (List Char)) :=
  match segments.reverse.dropWhile fun s => !isName s with
  | [] => none
  | name :: before => some (name, before)

/-- The path without its last name. -/
def parent? (p : Path) : Option Path :=
  let (anchor, rest) := anchored p.toList
  match lastName? (segments rest), anchor with
  | some (_, before), _ =>
    some (String.ofList (anchor.text ++ joined (before.dropWhile fun s => !isName s).reverse))
  | none, .here => some ""
  | none, _ => none

/-- The path, its parent, the parent of that, and so on, as far as there are names.  A parent is
shorter than its path, so `fuel` need not exceed the length of the path. -/
def ancestorsWithin : Nat → Path → List Path
  | 0, _ => []
  | fuel + 1, p =>
    if p = "" then []
    else p :: match p.parent? with
      | none => []
      | some parent => ancestorsWithin fuel parent

/-- The path and all paths above it, the longest first. -/
def ancestors (p : Path) : List Path := ancestorsWithin p.length p

/-- The name of a file: the last name of its path, unless that leads up. -/
def fileName? (p : Path) : Option String :=
  match lastName? (segments (anchored p.toList).2) with
  | some (name, _) => if name = ['.', '.'] then none else some (String.ofList name)
  | none => none

/-- The path of a name in a directory. -/
def join (dir : Path) (name : String) : Path :=
  match dir.toList.getLast? with
  | none | some '/' => dir ++ name
  | some _ => dir ++ "/" ++ name

/-- The name of a file without its extension, which starts at the last dot; a dot in front starts
none. -/
def dropExtension (name : List Char) : List Char :=
  match name.reverse.dropWhile (· != '.') with
  | [] | ['.'] => name
  | _ :: stem => stem.reverse

/-- The path with another extension of the file, where it has a file name. -/
def withExtension (p : Path) (extension : String) : Path :=
  let (anchor, rest) := anchored p.toList
  match lastName? (segments rest), p.fileName? with
  | some (name, before), some _ =>
    let renamed := dropExtension name ++ '.' :: extension.toList
    String.ofList (anchor.text ++ joined (renamed :: before).reverse)
  | _, _ => p

/-- The path with another file name. -/
def withFileName (p : Path) (name : String) : Path :=
  match p.fileName? with
  | some _ => (p.parent?.getD "").join name
  | none => p.join name

end Path

end StaticScript
