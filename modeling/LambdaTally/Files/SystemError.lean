/-!
# LambdaTally.Files.SystemError

Why the system refuses to open, read or write a file, in its own words.
-/

namespace LambdaTally

inductive SystemError where
  | notFound
  | inputOutput
  | notDirectory
  | isDirectory
  | nameTooLong
  | tooManyLinks
  /-- A path with a NUL in it never reaches the system. -/
  | nulInPath
  /-- Any other refusal, with what the system says. -/
  | other (text : String)
  deriving DecidableEq, Repr

def SystemError.message : SystemError → String
  | .notFound => "No such file or directory (os error 2)"
  | .inputOutput => "Input/output error (os error 5)"
  | .notDirectory => "Not a directory (os error 20)"
  | .isDirectory => "Is a directory (os error 21)"
  | .nameTooLong => "File name too long (os error 36)"
  | .tooManyLinks => "Too many levels of symbolic links (os error 40)"
  | .nulInPath => "file name contained an unexpected NUL byte"
  | .other text => text

end LambdaTally
