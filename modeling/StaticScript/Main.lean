import StaticScript.Command.Run

/-!
# The program

Runs the command line on the files of the computer.
-/

namespace StaticScript

/-- The error of a number, which the system gives as it is or as its negative. -/
def FileError.ofCode (code : UInt32) (description : String) : FileError :=
  if code = 20 ∨ 0 - code = 20 then .notDirectory
  else if code = 21 ∨ 0 - code = 21 then .isDirectory
  else if code = 36 ∨ 0 - code = 36 then .nameTooLong
  else .other description

/-- The reason why the system refuses an operation. -/
def FileError.ofSystem : IO.Error → FileError
  | .noFileOrDirectory .. => .notFound
  | .alreadyExists .. => .alreadyExists
  | .inappropriateType _ code description => .ofCode code description
  | .invalidArgument _ code description => .ofCode code description
  | e => .other e.toString

/-- Does something that the system may refuse. -/
def tried {α : Type} (action : IO α) : IO (Except FileError α) := do
  try return .ok (← action) catch e => return .error (.ofSystem e)

instance : Host IO where
  read p := tried (IO.FS.readFile p)
  isFile p := do return (← tried (IO.FS.readBinFile p)).toBool
  makeDirectory p := tried (IO.FS.createDir p)
  write p text := tried (IO.FS.writeFile p text)
  out text := do (← IO.getStdout).putStr text
  err text := do (← IO.getStderr).putStr text

end StaticScript

/-- Runs the program with its arguments. -/
def main (arguments : List String) : IO UInt32 := StaticScript.Command.run arguments
