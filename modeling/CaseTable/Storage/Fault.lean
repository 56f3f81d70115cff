/-!
# Faults of the file system

What a file operation can fail with. A fault of the system is reported with its number.
-/

namespace CaseTable

/-- Why a file operation failed. -/
inductive Fault
    | noSuchFile
    | notADirectory
    | isADirectory
    | busy
    | nameTooLong
    | nulInPath
    | notText
    | noFreeName
    /-- Any other fault, in the system's words. -/
    | other (description : String)
    deriving DecidableEq, Repr

namespace Fault

def message : Fault → String
  | noSuchFile => "No such file or directory (os error 2)"
  | notADirectory => "Not a directory (os error 20)"
  | isADirectory => "Is a directory (os error 21)"
  | busy => "Device or resource busy (os error 16)"
  | nameTooLong => "File name too long (os error 36)"
  | nulInPath => "file name contained an unexpected NUL byte"
  | notText => "stream did not contain valid UTF-8"
  | noFreeName => "too many temporary files exist"
  | other description => description

end Fault

end CaseTable
