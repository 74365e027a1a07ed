import StaticScript.Command.Path
import StaticScript.Policy

/-!
# The command line

`Command.parse?` reads the arguments of the program.  An option is written in words (`--output DIR`,
`--output=DIR`) or as a letter (`-o DIR`, `-oDIR`, `-o=DIR`), and letters may be drawn together.
Options stand anywhere among the inputs until `--`, each at most once; a value that starts with a
dash can only be attached to its option.
-/

namespace StaticScript

/-- Where the policies come from: a file, and single choices that go before it. -/
structure PolicyChoice where
  config : Option Path
  generics : Option GenericPolicy
  defaults : Option DefaultPolicy
deriving DecidableEq

/-- What the program is asked to do. -/
inductive Command where
  /-- Tell the version. -/
  | version
  /-- Write C++ programs. -/
  | translate (inputs : List Path) (output source : Option Path) (diagnostics : Bool)
      (policy : PolicyChoice)
  /-- List what would be left out. -/
  | check (inputs : List Path) (policy : PolicyChoice)
deriving DecidableEq

namespace Command

/-! ### Options -/

/-- The options. -/
inductive Flag where
  | verbose | version | diagnostics
  | output | source | config | genericParams | defaultParams
deriving DecidableEq

namespace Flag

/-- The word for an option. -/
def word : Flag → String
  | .verbose => "verbose"
  | .version => "version"
  | .diagnostics => "diagnostics"
  | .output => "output"
  | .source => "source"
  | .config => "config"
  | .genericParams => "generic-params"
  | .defaultParams => "default-params"

/-- The letter for an option, if there is one. -/
def letter? : Flag → Option Char
  | .verbose => some 'v'
  | .version => some 'V'
  | .output => some 'o'
  | _ => none

/-- The option has a value. -/
def takesValue : Flag → Bool
  | .verbose | .version | .diagnostics => false
  | .output | .source | .config | .genericParams | .defaultParams => true

/-- The options that stand before the command. -/
def ofProgram : List Flag := [.verbose, .version]

/-- The options of both commands. -/
def ofPolicy : List Flag := [.verbose, .config, .genericParams, .defaultParams]

/-- The options of `translate`. -/
def ofTranslate : List Flag := [.output, .source, .diagnostics] ++ ofPolicy

end Flag

/-! ### Arguments -/

/-- What one argument says. -/
inductive Token where
  /-- A command, an input, or the value of an option before it. -/
  | plain (text : String)
  /-- No options follow. -/
  | stop
  /-- Options with their values, and perhaps one whose value is the next argument. -/
  | options (given : List (Flag × String)) (awaiting : Option Flag)

/-- Reads an option in words. -/
def wordToken? (allowed : List Flag) (cs : List Char) : Option Token := do
  let word := cs.takeWhile (· != '=')
  let flag ← allowed.find? fun f => f.word.toList == word
  match cs.dropWhile (· != '='), flag.takesValue with
  | _ :: value, true => some (.options [(flag, String.ofList value)] none)
  | [], true => some (.options [] (some flag))
  | [], false => some (.options [(flag, "")] none)
  | _ :: _, false => none

/-- Reads letters drawn together.  What follows the letter of an option with a value is its value,
and nothing matters after the version is asked for. -/
def letters? (allowed : List Flag) : List Char → Option (List (Flag × String) × Option Flag)
  | [] => some ([], none)
  | c :: cs => do
    let flag ← allowed.find? fun f => f.letter? == some c
    if flag = .version then some ([(flag, "")], none)
    else if flag.takesValue then
      match cs with
      | [] => some ([], some flag)
      | '=' :: value | value => some ([(flag, String.ofList value)], none)
    else
      let (given, awaiting) ← letters? allowed cs
      some ((flag, "") :: given, awaiting)

/-- Reads an argument; there is no option but those allowed. -/
def token? (allowed : List Flag) (argument : String) : Option Token :=
  match argument.toList with
  | ['-', '-'] => some .stop
  | '-' :: '-' :: cs => wordToken? allowed cs
  | '-' :: c :: cs => do
    let (given, awaiting) ← letters? allowed (c :: cs)
    some (.options given awaiting)
  | _ => some (.plain argument)

/-! ### Commands -/

/-- The options and inputs read so far. -/
structure Reading where
  given : List (Flag × String)
  inputs : List Path

namespace Reading

/-- Nothing is read yet. -/
def empty : Reading := ⟨[], []⟩

/-- Adds an option, which must be new. -/
def add? (r : Reading) (option : Flag × String) : Option Reading :=
  if (r.given.lookup option.1).isSome then none
  else some { r with given := option :: r.given }

/-- Adds options, which must be new. -/
def addAll? (r : Reading) (options : List (Flag × String)) : Option Reading :=
  options.foldlM add? r

/-- Reads the arguments of a command, where an option may be awaiting its value. -/
def arguments? (allowed : List Flag) : Option Flag → Reading → List String → Option Reading
  | none, r, [] => some r
  | some _, _, [] => none
  | some flag, r, argument :: rest =>
    match token? allowed argument with
    | some (.plain value) => do arguments? allowed none (← r.add? (flag, value)) rest
    | _ => none
  | none, r, argument :: rest =>
    match token? allowed argument with
    | none => none
    | some .stop => some { r with inputs := r.inputs ++ rest }
    | some (.plain input) => arguments? allowed none { r with inputs := r.inputs ++ [input] } rest
    | some (.options given awaiting) => do
      arguments? allowed awaiting (← r.addAll? given) rest

/-- There is an input, and no input and no value is empty. -/
def isComplete (r : Reading) : Bool :=
  !r.inputs.isEmpty && r.inputs.all (· != "") &&
    r.given.all fun (flag, value) => !flag.takesValue || value != ""

/-- The value of an option. -/
def value? (r : Reading) (flag : Flag) : Option String := r.given.lookup flag

/-- The choice of policies. -/
def policy? (r : Reading) : Option PolicyChoice := do
  let generics ← (r.value? .genericParams).mapM fun s => (GenericPolicy.ofName s).toOption
  let defaults ← (r.value? .defaultParams).mapM fun s => (DefaultPolicy.ofName s).toOption
  return ⟨r.value? .config, generics, defaults⟩

end Reading

/-- Reads the command of a name from its arguments. -/
def named? (name : String) (arguments : List String) : Option Command :=
  match name with
  | "translate" => do
    let r ← Reading.arguments? Flag.ofTranslate none .empty arguments
    if r.isComplete then
      let policy ← r.policy?
      return .translate r.inputs (r.value? .output) (r.value? .source)
        (r.value? .diagnostics).isSome policy
    else none
  | "check" => do
    let r ← Reading.arguments? Flag.ofPolicy none .empty arguments
    if r.isComplete then
      return .check r.inputs (← r.policy?)
    else none
  | _ => none

/-- Reads the options in front of the command, and the command. -/
def parseFrom? (r : Reading) : List String → Option Command
  | [] => none
  | argument :: rest =>
    match token? Flag.ofProgram argument with
    | some (.plain name) => named? name rest
    | some (.options given _) => do
      let r ← r.addAll? given
      if (r.value? .version).isSome then return .version else parseFrom? r rest
    | _ => none

/-- Reads the arguments of the program. -/
def parse? (arguments : List String) : Option Command := parseFrom? .empty arguments

end Command

end StaticScript
