/-!
# LambdaTally.Output.Written

Text that is written up to its end, or up to a value that its format cannot hold.
-/

namespace LambdaTally

/-- Why a result cannot be written: a path that is not UTF-8 has no form in JSON or YAML. -/
inductive OutputError where
  | jsonPath
  | yamlPath
  deriving DecidableEq, Repr

def OutputError.message : OutputError → String
  | .jsonPath => "JSON error: path contains invalid UTF-8 characters"
  | .yamlPath => "YAML error: path contains invalid UTF-8 characters"

/-- What has been written, and why no more could be. -/
structure Written where
  text : List Char
  failure : Option OutputError
  deriving DecidableEq, Repr

namespace Written

/-- Text written to its end. -/
def done (text : List Char) : Written := ⟨text, none⟩

/-- Text and what is written after it. -/
def after (text : List Char) (w : Written) : Written := ⟨text ++ w.text, w.failure⟩

/-- The text, or why it is not all there. -/
def result (w : Written) : Except OutputError (List Char) :=
  match w.failure with
  | none => .ok w.text
  | some e => .error e

end Written
end LambdaTally
