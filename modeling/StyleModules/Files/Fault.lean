import StyleModules.Path
import StyleModules.Json.Reader

/-!
# What can go wrong

An access fails for one of three causes, with a number and words of its own. A specification
cannot be loaded because its file cannot be read, is malformed, or is no array. A fault is what
ends an operation: an access that was not expected to fail, a file that is no text, a string that
no file can hold, a document with too long an integer, a path without a name, a specification, a
node of unknown kind, or an interruption.
-/

namespace StyleModules

/-- Why a file cannot be reached. -/
inductive AccessError where
  /-- Nothing is there. -/
  | missing
  /-- A file is on the way. -/
  | notDirectory
  /-- A directory is there. -/
  | isDirectory
  deriving DecidableEq, Repr

/-- Number and words of an access error. -/
def AccessError.label : AccessError → Text
  | missing => "[Errno 2] No such file or directory".toList
  | notDirectory => "[Errno 20] Not a directory".toList
  | isDirectory => "[Errno 21] Is a directory".toList

/-- The words for an access error at a path. -/
def AccessError.message (error : AccessError) (path : Path) : Text :=
  error.label ++ ": ".toList ++ Text.quoted path.toText

/-- Why a specification cannot be loaded. -/
inductive SpecError where
  /-- Its file cannot be read. -/
  | unreadable (error : AccessError) (path : Path)
  /-- It is malformed. -/
  | malformed (failure : JsonFailure) (document : Text)
  /-- It is no array. -/
  | notArray

/-- The words for a specification that cannot be loaded. -/
def SpecError.message : SpecError → Text
  | unreadable error path => "Cannot read spec file: ".toList ++ error.message path
  | malformed failure document =>
    "Invalid JSON in spec file: ".toList ++ failure.message document
  | notArray => "JSON is not an Array".toList

/-- What ends an operation. -/
inductive Fault where
  /-- A file's bytes are no text. -/
  | undecodable
  /-- A string that holds a half of a character cannot be written. -/
  | unencodable
  /-- An integer in a document has too many digits. -/
  | longInteger (digits : Nat)
  /-- A file cannot be reached. -/
  | access (error : AccessError) (path : Path)
  /-- A path has no last name. -/
  | emptyName (path : Path)
  /-- There is no such kind of node. -/
  | unknownKind (name : Text)
  /-- A specification cannot be loaded. -/
  | spec (error : SpecError)
  /-- The user ended the operation. -/
  | interrupted
  deriving Inhabited

/-- The words for a fault of which more than the kind is told. -/
def Fault.message? : Fault → Option Text
  | longInteger digits =>
    some ("Exceeds the limit (".toList ++ Text.ofNat JsonReader.digitLimit ++
      " digits) for integer string conversion: value has ".toList ++ Text.ofNat digits ++
        " digits; use sys.set_int_max_str_digits() to increase the limit".toList)
  | emptyName path =>
    some ("PosixPath(".toList ++ Text.quoted path.toText ++ ") has an empty name".toList)
  | unknownKind name => some (Text.quoted name ++ " is not a valid NodeKind".toList)
  | spec error => some error.message
  | _ => none

end StyleModules
