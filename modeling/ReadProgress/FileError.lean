/-!
This module contains the reasons for which files cannot be read, written or moved.
-/

namespace ReadProgress

/--
Why something cannot be done with files.
-/
inductive FileError where
  | notFound
  | busy
  | occupied
  | notDirectory
  | isDirectory
  | nameTooLong
  | nameWithNul
  | other (text : String)
deriving DecidableEq, Repr

/--
The wording of a reason. Those that the system gives come with its numbers for them.
-/
def FileError.message : FileError → String
  | notFound => "No such file or directory (os error 2)"
  | busy => "Device or resource busy (os error 16)"
  | occupied => "File exists (os error 17)"
  | notDirectory => "Not a directory (os error 20)"
  | isDirectory => "Is a directory (os error 21)"
  | nameTooLong => "File name too long (os error 36)"
  | nameWithNul => "file name contained an unexpected NUL byte"
  | other text => text

end ReadProgress
