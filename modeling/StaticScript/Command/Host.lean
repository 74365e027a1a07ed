import StaticScript.Command.Path

/-!
# What the program asks of the computer

The program reads and writes files and writes texts.  `Host` lists these effects, so that the
program can run on a computer and in memory alike.
-/

namespace StaticScript

/-- Why a file or directory cannot be had. -/
inductive FileError where
  | notFound
  | alreadyExists
  | notDirectory
  | isDirectory
  | nameTooLong
  | other (description : String)
deriving DecidableEq

/-- The wording of an error, with its number. -/
def FileError.message : FileError → String
  | .notFound => "No such file or directory (os error 2)"
  | .alreadyExists => "File exists (os error 17)"
  | .notDirectory => "Not a directory (os error 20)"
  | .isDirectory => "Is a directory (os error 21)"
  | .nameTooLong => "File name too long (os error 36)"
  | .other description => description

/-- A place where the program can run. -/
class Host (m : Type → Type) where
  /-- The text of a file. -/
  read : Path → m (Except FileError String)
  /-- There is a file at a path. -/
  isFile : Path → m Bool
  /-- Makes a directory in one that is there. -/
  makeDirectory : Path → m (Except FileError Unit)
  /-- Makes a file of a text, in place of one that is there. -/
  write : Path → String → m (Except FileError Unit)
  /-- Writes a text as a result. -/
  out : String → m Unit
  /-- Writes a text about what went wrong. -/
  err : String → m Unit

/-- Where the program can run it can also fail. -/
instance {ε : Type} {m : Type → Type} [Monad m] [Host m] : Host (ExceptT ε m) where
  read p := ExceptT.lift (Host.read p)
  isFile p := ExceptT.lift (Host.isFile p)
  makeDirectory p := ExceptT.lift (Host.makeDirectory p)
  write p text := ExceptT.lift (Host.write p text)
  out text := ExceptT.lift (Host.out text)
  err text := ExceptT.lift (Host.err text)

end StaticScript
