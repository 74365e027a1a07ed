import StaticScript.Command.Host

/-!
# A computer in memory

`Memory` holds files and directories below a working directory and the texts that were written;
programs run on it in `StateM Memory`.  A path is followed name by name: each name but the last must
be one of a directory, no name may be too long, and two dots lead up.  Of what is not below the
working directory only the directories that it is in are known.
-/

namespace StaticScript

/-- What is at a place. -/
inductive Node where
  | missing
  | directory
  | file (text : String)
deriving DecidableEq

/-- The names that lead from the working directory to a place.  Places that are not below it start
with two dots for each directory up, or with a slash for the root. -/
abbrev Names := List (List Char)

/-- The two dots that lead up. -/
def Names.dots : List Char := ['.', '.']

/-- The root. -/
def Names.root : Names := [['/']]

/-- A directory that the working directory is in, or itself. -/
def Names.isAbove (names : Names) : Bool := names == root || names.all (· == dots)

/-- The place is below the working directory. -/
def Names.isBelow (names : Names) : Bool :=
  names.head? != some ['/'] && names.head? != some dots

/-- The most bytes of a name. -/
def Names.mostBytes : Nat := 255

/-- The place of a name in a directory. -/
def Names.child (names : Names) (name : List Char) : Except FileError Names :=
  if mostBytes < (String.ofList name).utf8ByteSize then .error .nameTooLong
  else .ok (names ++ [name])

/-- The directory that a place is in. -/
def Names.up (names : Names) : Names :=
  if names = root then root
  else if names.isAbove then names ++ [dots]
  else names.dropLast

/-- A computer in memory. -/
structure Memory where
  files : List (Names × String)
  /-- Directories; those that files are in need not be listed. -/
  directories : List Names
  out : String
  err : String

namespace Memory

/-- A computer with files only. -/
def ofFiles (files : List (Path × String)) : Memory where
  files := files.map fun (p, text) => (p.place.2, text)
  directories := []
  out := ""
  err := ""

/-- What is at a place. -/
def node (memory : Memory) (names : Names) : Node :=
  match memory.files.lookup names with
  | some text => .file text
  | none =>
    if names.isAbove || memory.directories.contains names ||
        memory.files.any (fun f => names.isPrefixOf f.1) then .directory
    else .missing

/-- The directory at a place. -/
def enter (memory : Memory) (names : Names) : Except FileError Names :=
  match memory.node names with
  | .directory => .ok names
  | .file _ => .error .notDirectory
  | .missing => .error .notFound

/-- Follows segments from the place `names`. -/
def follow (memory : Memory) (names : Names) : List (List Char) → Except FileError Names
  | [] => .ok names
  | segment :: rest => do
    let names ← memory.enter names
    if segment = Names.dots then follow memory names.up rest
    else if Path.isName segment then do follow memory (← names.child segment) rest
    else follow memory names rest

/-- The place that paths with an anchor start from. -/
def start : Path.Anchor → Names
  | .root => Names.root
  | .here | .silent => []

/-- A path has fewer bytes than this. -/
def pathBytes : Nat := 4096

/-- Where a path starts, and its segments.  A path may neither be empty nor too long. -/
def dissect (p : Path) : Except FileError (Names × List (List Char)) :=
  if p = "" then .error .notFound
  else if pathBytes ≤ p.utf8ByteSize then .error .nameTooLong
  else
    let (anchor, rest) := Path.anchored p.toList
    .ok (start anchor, Path.segments rest)

/-- The place of a path. -/
def locate (memory : Memory) (p : Path) : Except FileError Names := do
  let (names, segments) ← dissect p
  memory.follow names segments

/-- The text of a file. -/
def read (memory : Memory) (p : Path) : Except FileError String := do
  match memory.node (← memory.locate p) with
  | .file text => .ok text
  | .directory => .error .isDirectory
  | .missing => .error .notFound

/-- There is a file at a path. -/
def isFile (memory : Memory) (p : Path) : Bool :=
  match memory.read p with
  | .ok _ => true
  | .error _ => false

/-- Makes a directory in one that is there.  Slashes at the end say nothing, but the last segment
must be a name: what dots lead to is there if it can be reached at all. -/
def makeDirectory (memory : Memory) (p : Path) : Except FileError Memory := do
  let (names, segments) ← dissect p
  match segments.reverse.dropWhile List.isEmpty with
  | [] => .error .alreadyExists
  | last :: before =>
    let parent ← memory.enter (← memory.follow names before.reverse)
    if last = Names.dots ∨ ¬ Path.isName last then .error .alreadyExists
    else
      let names ← parent.child last
      match memory.node names with
      | .missing => return { memory with directories := names :: memory.directories }
      | _ => .error .alreadyExists

/-- Makes a file of a text. -/
def write (memory : Memory) (p : Path) (text : String) : Except FileError Memory := do
  let names ← memory.locate p
  match memory.node names with
  | .directory => .error .isDirectory
  | _ =>
    return { memory with files := memory.files.filter (fun f => f.1 != names) ++ [(names, text)] }

/-- Changes the computer, unless that fails. -/
def update (change : Memory → Except FileError Memory) : StateM Memory (Except FileError Unit) :=
  fun memory => match change memory with
    | .ok changed => (.ok (), changed)
    | .error e => (.error e, memory)

instance : Host (StateM Memory) where
  read p memory := (memory.read p, memory)
  isFile p memory := (memory.isFile p, memory)
  makeDirectory p := update (·.makeDirectory p)
  write p text := update (·.write p text)
  out text memory := ((), { memory with out := memory.out ++ text })
  err text memory := ((), { memory with err := memory.err ++ text })

/-- The files below the working directory that are new or have another text than before, with their
paths. -/
def changedFiles (before after : Memory) : List (Path × String) :=
  (after.files.filter fun (names, text) =>
    names.isBelow && before.files.lookup names != some text).map
    fun (names, text) => (String.ofList (Path.joined names), text)

end Memory

end StaticScript
