import StaticScript.Command.Path

/-!
# Names of the files that are written

Each script gives one program and, on demand, one document of records, named after the script up to
its first dot.  Two scripts that would be written to the same place collide.
-/

namespace StaticScript.Command

/-- The name of the files made from a script: the name of its file up to the first dot, or all of it
if a dot comes first. -/
def stem (input : Path) : String :=
  let name := (input.fileName?.getD "").toList
  match name.takeWhile (· != '.') with
  | [] => String.ofList name
  | stem => String.ofList stem

/-- The directory of the files made from a script: the one chosen, else the one of the script. -/
def directory (output : Option Path) (input : Path) : Path :=
  match output.or input.parent? with
  | none | some "" => "."
  | some dir => dir

/-- The file of the program. -/
def programFile (output : Option Path) (input : Path) : Path :=
  (directory output input).join (stem input ++ ".cpp")

/-- The file of the records. -/
def recordsFile (output : Option Path) (input : Path) : Path :=
  (directory output input).join (stem input ++ ".diagnostics.json")

/-- Two scripts whose programs have the same place. -/
structure Collision where
  first : Path
  second : Path
  target : Path
deriving DecidableEq

/-- The first script of `inputs` that collides with one of `earlier` or of `inputs` before it. -/
def collisionAfter? (output : Option Path) (earlier : List Path) : List Path → Option Collision
  | [] => none
  | input :: inputs =>
    let target := programFile output input
    match earlier.find? fun e => (programFile output e).place == target.place with
    | some first => some ⟨first, input, target⟩
    | none => collisionAfter? output (earlier ++ [input]) inputs

/-- The first collision among scripts. -/
def collision? (output : Option Path) (inputs : List Path) : Option Collision :=
  collisionAfter? output [] inputs

/-- The wording of a collision. -/
def Collision.message (c : Collision) : String :=
  c.first ++ " and " ++ c.second ++ " would both be written to " ++ c.target

end StaticScript.Command
