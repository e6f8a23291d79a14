namespace WordMachine

/-! What can go wrong with files and with the console. -/

inductive Fault where
  | notFound
  | notDirectory
  | isDirectory
  | nameTooLong
  | nulInName
  | notUtf8
  | sourceProtected
  | outputLimit
  | other (description : String)
  deriving DecidableEq, Repr

namespace Fault

def message : Fault → String
  | .notFound => "No such file or directory (os error 2)"
  | .notDirectory => "Not a directory (os error 20)"
  | .isDirectory => "Is a directory (os error 21)"
  | .nameTooLong => "File name too long (os error 36)"
  | .nulInName => "file name contained an unexpected NUL byte"
  | .notUtf8 => "stream did not contain valid UTF-8"
  | .sourceProtected => "refusing to overwrite the source file"
  | .outputLimit => "output limit reached"
  | .other description => description

end Fault

end WordMachine
