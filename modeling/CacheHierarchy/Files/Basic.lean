/-!
# Files

A program reads whole files and writes whole files, each named by a path. Where the files are kept
is left open: `Files m` says how a program in the monad `m` gets at them.
-/

namespace CacheHierarchy

inductive FileError
  | absent
  /-- The path goes through a file as if it were a directory. -/
  | throughFile
  | directory
  /-- The path, or the name of a file or directory on it, is longer than any may be. -/
  | nameTooLong
  /-- The path holds a character that no path may hold. -/
  | invalidPath
  | other (reason : String)
  deriving DecidableEq, Repr, Inhabited

def FileError.message : FileError → String
  | absent => "No such file or directory (os error 2)"
  | throughFile => "Not a directory (os error 20)"
  | directory => "Is a directory (os error 21)"
  | nameTooLong => "File name too long (os error 36)"
  | invalidPath => "file name contained an unexpected NUL byte"
  | other reason => reason

class Files (m : Type → Type) where
  read : String → m (Except FileError ByteArray)
  /-- A file gets a new content and comes into being if it was not there. -/
  write : String → String → m (Except FileError Unit)

end CacheHierarchy
