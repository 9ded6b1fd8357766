import FileRoutes.Path.Basic

/-!
# Faults of the file system

Why reading or changing files can fail, and what the system says about it.
-/

namespace FileRoutes.FileSystem

/-- Why an operation on files failed. -/
inductive Error where
  /-- There is no such entry. -/
  | notFound
  /-- It is not allowed. -/
  | denied
  /-- The entry cannot be replaced. -/
  | busy
  /-- There is such an entry already. -/
  | alreadyExists
  /-- Something else stands in place of a directory. -/
  | notDirectory
  /-- A directory stands in place of a file. -/
  | isDirectory
  /-- There is no room left. -/
  | noSpace
  /-- Nothing can be changed at all. -/
  | readOnly
  /-- A name or a path has too many bytes. -/
  | nameTooLong
  /-- A path leads through too many links. -/
  | tooManyLinks
  /-- A path holds the character NUL. -/
  | nulInPath
  /-- The bytes of a file are no text. -/
  | notText
  /-- A path does not end in a name. -/
  | noFileName (path : Path)
deriving DecidableEq, Inhabited

/-- What is said about a fault. -/
def Error.message : Error → String
  | notFound => "No such file or directory (os error 2)"
  | denied => "Permission denied (os error 13)"
  | busy => "Device or resource busy (os error 16)"
  | alreadyExists => "File exists (os error 17)"
  | notDirectory => "Not a directory (os error 20)"
  | isDirectory => "Is a directory (os error 21)"
  | noSpace => "No space left on device (os error 28)"
  | readOnly => "Read-only file system (os error 30)"
  | nameTooLong => "File name too long (os error 36)"
  | tooManyLinks => "Too many levels of symbolic links (os error 40)"
  | nulInPath => "file name contained an unexpected NUL byte"
  | notText => "stream did not contain valid UTF-8"
  | noFileName path => "not a file path: " ++ path.text

end FileRoutes.FileSystem
