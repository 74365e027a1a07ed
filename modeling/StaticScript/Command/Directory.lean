import StaticScript.Command.Host

/-!
# Making directories

`Command.makeDirectories` makes a directory and those that it is in.  The directory itself is tried
first; only if there is nothing to make it in is its parent made, and then it is tried again.  A
path that leads through a missing directory and up again thus makes that directory.
-/

namespace StaticScript.Command

variable {m : Type → Type} [Monad m] [Host m]

/-- There is a directory at a path: for this reason it cannot be read. -/
def isDirectory (p : Path) : m Bool := do
  match ← Host.read p with
  | .error .isDirectory => return true
  | _ => return false

/-- A failure to make a directory, unless it is there. -/
def unlessDirectory (p : Path) (e : FileError) : m (Except FileError Unit) := do
  if ← isDirectory p then return .ok () else return .error e

/-- Makes the directory at the first path, and before it those at the others as far as they are
missing. -/
def makeInnermost : List Path → m (Except FileError Unit)
  | [] => return .ok ()
  | p :: outer => do
    match ← Host.makeDirectory p with
    | .ok () => return .ok ()
    | .error .notFound =>
      match ← makeInnermost outer with
      | .error e => return .error e
      | .ok () =>
        match ← Host.makeDirectory p with
        | .ok () => return .ok ()
        | .error e => unlessDirectory p e
    | .error e => unlessDirectory p e

/-- Makes a directory, and those that it is in. -/
def makeDirectories (p : Path) : m (Except FileError Unit) := makeInnermost p.ancestors

end StaticScript.Command
