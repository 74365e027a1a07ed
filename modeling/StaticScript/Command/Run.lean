import StaticScript.Command.Arguments
import StaticScript.Command.Directory
import StaticScript.Command.Output
import StaticScript.Lowering.Program
import StaticScript.Skip.Document
import StaticScript.Target.Printer

/-!
# Running the program

`Command.run` does what the command line says.  The scripts are all read and lowered before
anything is written.  A script that cannot be read is reported and the others go on; a file that
cannot be written ends the run.
-/

namespace StaticScript.Command

/-! ### Errors -/

/-- What can go wrong in a run. -/
inductive RunError where
  /-- The file of policies cannot be read. -/
  | config (error : FileError)
  /-- The policies are not well-formed. -/
  | policy (error : PolicyError)
  /-- The file of a script cannot be read. -/
  | unreadable (input : Path) (error : FileError)
  /-- A file does not hold the tree of a script. -/
  | malformed (input : Path)
  /-- The text of a script cannot be read. -/
  | source (path : Path) (error : FileError)
  /-- The text of a script is given, but there are several scripts. -/
  | severalInputs
  /-- Two programs would be written to the same place. -/
  | collision (collision : Collision)
  /-- A directory cannot be made. -/
  | directory (path : Path) (error : FileError)
  /-- A file cannot be written. -/
  | file (path : Path) (error : FileError)

/-- The wording of an error. -/
def RunError.message : RunError → String
  | .config e => "IO error: " ++ e.message
  | .policy e => "Invalid configuration: " ++ e.message?.getD "not a document of policies"
  | .unreadable input e =>
    "Failed to load " ++ input ++ ": Failed to load syntax tree: Cannot read " ++ input ++ ": " ++
      e.message
  | .malformed input =>
    "Failed to load " ++ input ++ ": Failed to load syntax tree: not the tree of a script"
  | .source path e => "Failed to read source " ++ path ++ ": " ++ e.message
  | .severalInputs => "--source can only be used with a single input"
  | .collision c => c.message
  | .directory path e => "Failed to create " ++ path ++ ": " ++ e.message
  | .file path e => "Failed to write " ++ path ++ ": " ++ e.message

section

variable {m : Type → Type} [Monad m] [Host m]

/-- An effect of the host that may fail, as part of a run. -/
def attempt {α : Type} (describe : FileError → RunError) (effect : m (Except FileError α)) :
    ExceptT RunError m α := do
  match ← effect with
  | .ok a => return a
  | .error e => throw (describe e)

/-- Says what went wrong. -/
def reportError (e : RunError) : m Unit := Host.err ("Error: " ++ e.message ++ "\n")

/-! ### Reading -/

/-- The policies that are chosen. -/
def resolve (choice : PolicyChoice) : ExceptT RunError m Policy := do
  let base ← match choice.config with
    | none => pure Policy.standard
    | some path => do
      match Policy.load (← attempt .config (Host.read path)) with
      | .ok p => pure p
      | .error e => throw (.policy e)
  return ⟨choice.generics.getD base.generics, choice.defaults.getD base.defaults⟩

/-- The text of the script that a tree was made from, if it lies next to the tree. -/
def siblingSource? (input : Path) : m (Option Path) := do
  let direct := input.withExtension "py"
  if ← Host.isFile direct then return some direct
  let nested := input.withFileName (stem input ++ ".py")
  return if ← Host.isFile nested then some nested else none

/-- The tree of a script, with the texts that can be found. -/
def loadScript (source : Option Path) (input : Path) : ExceptT RunError m Source.Module := do
  let text ← attempt (.unreadable input) (Host.read input)
  let some script := Source.Module.load? text | throw (.malformed input)
  let script := if script.file = "" then { script with file := input } else script
  let source ← match source with
    | some path => pure (some path)
    | none => siblingSource? input
  match source with
  | none => return script
  | some path => return (script.attachText (← attempt (.source path) (Host.read path))).2

/-- A script and what becomes of it, unless it cannot be read. -/
structure Outcome where
  input : Path
  lowered : Except RunError Lowering.Output

/-- What becomes of the scripts. -/
def lowerAll (policy : Policy) (source : Option Path) (inputs : List Path) :
    ExceptT RunError m (List Outcome) := do
  if source.isSome ∧ 1 < inputs.length then throw .severalInputs
  inputs.mapM fun input => do
    let script ← (loadScript source input).run
    return ⟨input, script.map (Lowering.emit policy)⟩

/-! ### Writing -/

/-- Writes the files made from a script, and then says which. -/
def writeFiles (output : Option Path) (diagnostics : Bool) (input : Path)
    (lowered : Lowering.Output) : ExceptT RunError m Unit := do
  let dir := directory output input
  let program := programFile output input
  let records := recordsFile output input
  attempt (.directory dir) (makeDirectories dir)
  attempt (.file program) (Host.write program lowered.program.text)
  if diagnostics then
    attempt (.file records) (Host.write records (SkipRecord.document lowered.records))
  Host.out ("wrote " ++ program ++ "\n")
  if diagnostics then Host.out ("wrote " ++ records ++ "\n")

/-- Writes the program made from a script as a text, and on demand the records. -/
def writeText (diagnostics : Bool) (lowered : Lowering.Output) : m Unit := do
  Host.out lowered.program.text
  if diagnostics then Host.err (SkipRecord.document lowered.records ++ "\n")

/-- Lists what is left out of a script, and says whether that is nothing. -/
def writeReport (input : Path) (lowered : Lowering.Output) : m Bool := do
  let report := Report.ofRecords lowered.records
  for d in report.diagnostics do
    Host.out (d.located ++ "\n")
  Host.out (input ++ ": " ++ report.summary ++ "\n")
  return report.count .warning == 0 && report.count .error == 0

/-- Deals with the scripts in turn, and says whether all went well. -/
def dealWith (deal : Path → Lowering.Output → ExceptT RunError m Bool) :
    List Outcome → ExceptT RunError m Bool
  | [] => return true
  | outcome :: rest => do
    let fine ← match outcome.lowered with
      | .ok lowered => deal outcome.input lowered
      | .error e => do
        reportError e
        pure false
    let others ← dealWith deal rest
    return fine && others

/-! ### Commands -/

/-- Writes C++ programs: a single one as a text, unless a directory is chosen. -/
def writePrograms (inputs : List Path) (output source : Option Path) (diagnostics : Bool)
    (choice : PolicyChoice) : ExceptT RunError m Bool := do
  let policy ← resolve choice
  let asText := output.isNone && inputs.length == 1
  if !asText then
    if let some c := collision? output inputs then throw (.collision c)
  let outcomes ← lowerAll policy source inputs
  dealWith (fun input lowered => do
    if asText then writeText diagnostics lowered
    else writeFiles output diagnostics input lowered
    return true) outcomes

/-- Lists what is left out of the scripts, and says whether that is nothing. -/
def writeReports (inputs : List Path) (choice : PolicyChoice) : ExceptT RunError m Bool := do
  let policy ← resolve choice
  let outcomes ← lowerAll policy none inputs
  dealWith (fun input lowered => writeReport input lowered) outcomes

/-- Ends a run: the status is one if something went wrong. -/
def finish (result : ExceptT RunError m Bool) : m UInt32 := do
  match ← result.run with
  | .ok true => return 0
  | .ok false => return 1
  | .error e => do
    reportError e
    return 1

/-- Runs the program with arguments, and gives the status that it ends with. -/
def run (arguments : List String) : m UInt32 := do
  match parse? arguments with
  | none =>
    Host.err "Usage: pyplus [-v] <translate|check> [OPTIONS] <AST_JSON>...\n"
    return 2
  | some .version =>
    Host.out "pyplus 0.1.0\n"
    return 0
  | some (.translate inputs output source diagnostics policy) =>
    finish (writePrograms inputs output source diagnostics policy)
  | some (.check inputs policy) => finish (writeReports inputs policy)

end

end StaticScript.Command
