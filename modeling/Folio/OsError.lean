/-! Errors of an operating system's file calls. -/

namespace Folio

/-- Why a file call failed. -/
inductive OsError where
  | notFound
  | alreadyExists
  | notDirectory
  | isDirectory
  | nameTooLong
  | tooManyLinks
  /-- A path holds a zero character. -/
  | zeroInPath
  /-- Any other failure, with its number and wording. -/
  | other (code : Nat) (wording : String)
  deriving DecidableEq, Repr

/-- The text of an error with a number. -/
def OsError.numbered (wording : String) (code : Nat) : String :=
  wording ++ " (os error " ++ toString code ++ ")"

/-- The wording of an error. -/
def OsError.message : OsError → String
  | notFound => numbered "No such file or directory" 2
  | alreadyExists => numbered "File exists" 17
  | notDirectory => numbered "Not a directory" 20
  | isDirectory => numbered "Is a directory" 21
  | nameTooLong => numbered "File name too long" 36
  | tooManyLinks => numbered "Too many levels of symbolic links" 40
  | zeroInPath => "file name contained an unexpected NUL byte"
  | other code wording => numbered wording code

end Folio
