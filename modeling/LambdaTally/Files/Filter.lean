import LambdaTally.Files.Path
import LambdaTally.Text.CharClass

/-!
# LambdaTally.Files.Filter

Which files below a root are examined: by extension, in any ASCII case, and by size. A denied
extension is refused whatever is allowed; an empty list of allowed ones allows everything.
-/

namespace LambdaTally

structure Filter where
  allow : List (List Char)
  deny : List (List Char)
  maxSize : Option Nat
  deriving DecidableEq, Repr

namespace Filter

/-- The extensions of C++ sources. -/
def sourceExtensions : List (List Char) :=
  ["cc".toList, "cpp".toList, "cxx".toList, "c++".toList]

def default : Filter := ⟨sourceExtensions, [], none⟩

/-- The list names the extension, in any ASCII case. -/
def names (extensions : List (List Char)) (extension : List Char) : Bool :=
  extensions.any fun e => CharClass.asciiLower e == CharClass.asciiLower extension

/-- The extension of a path passes. A path without one, or with one that is no text, passes only
where everything is allowed. -/
def accepts (f : Filter) (path : Path) : Bool :=
  match path.extension?.bind Utf8.decode? with
  | none => f.allow.isEmpty
  | some extension =>
    !names f.deny extension && (f.allow.isEmpty || names f.allow extension)

/-- The size of a file passes. -/
def fits (f : Filter) (size : Nat) : Bool := f.maxSize.all (size ≤ ·)

end Filter
end LambdaTally
