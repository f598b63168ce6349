import LambdaTally.Text.Utf8

/-!
# LambdaTally.Files.Path

Paths as octets, and what the octets mean: a list of components. Doubled and trailing slashes, and
`.` anywhere but at the start, name no component. Paths are ordered by their components, so two
spellings of one list are equal in that order.
-/

namespace LambdaTally

/-- A path as it was written. -/
structure Path where
  octets : List UInt8
  deriving DecidableEq, Repr

/-- A step of a path, in the order in which steps of different sorts compare. -/
inductive Component where
  | root
  | current
  | parent
  | name (octets : List UInt8)
  deriving DecidableEq, Repr

namespace Component

/-- The place of a sort of step among the sorts. -/
def rank : Component → Nat
  | root => 0
  | current => 1
  | parent => 2
  | name _ => 3

/-- Lexicographic order of octets. -/
def compareOctets : List UInt8 → List UInt8 → Ordering
  | [], [] => .eq
  | [], _ :: _ => .lt
  | _ :: _, [] => .gt
  | a :: as, b :: bs => (compare a.toNat b.toNat).then (compareOctets as bs)

protected def compare (a b : Component) : Ordering :=
  match a, b with
  | name x, name y => compareOctets x y
  | a, b => compare a.rank b.rank

end Component

namespace Path

def ofText (text : List Char) : Path := ⟨Utf8.encode text⟩

def ofString (s : String) : Path := ofText s.toList

/-- The path as text, with U+FFFD in place of what is not UTF-8. -/
def display (p : Path) : List Char := Utf8.decodeLossy p.octets

/-- The path as text, if it is UTF-8. -/
def text? (p : Path) : Option (List Char) := Utf8.decode? p.octets

def slash : UInt8 := 0x2F

def dot : UInt8 := 0x2E

/-- The stretches between slashes, with the stretch being read latest first. -/
def splitSlashes (read : List UInt8) : List UInt8 → List (List UInt8)
  | [] => [read.reverse]
  | b :: rest => if b = slash then read.reverse :: splitSlashes [] rest else splitSlashes (b :: read) rest

/-- The component that a stretch between slashes names, if any. -/
def component? : List UInt8 → Option Component
  | [] => none
  | stretch =>
    if stretch = [dot] then none
    else if stretch = [dot, dot] then some .parent
    else some (.name stretch)

/-- The components of a path. -/
def components (p : Path) : List Component :=
  let stretches := splitSlashes [] p.octets
  let front : List Component :=
    match stretches with
    | [] :: _ :: _ => [.root]
    | [b] :: _ => if b = dot then [.current] else []
    | _ => []
  front ++ stretches.filterMap component?

/-- The order of component lists: the first difference decides, and a proper beginning is less. -/
def compareComponents : List Component → List Component → Ordering
  | [], [] => .eq
  | [], _ :: _ => .lt
  | _ :: _, [] => .gt
  | a :: as, b :: bs => (a.compare b).then (compareComponents as bs)

protected def compare (p q : Path) : Ordering := compareComponents p.components q.components

/-- A name below this path. -/
def join (p : Path) (name : List UInt8) : Path :=
  if p.octets = [] ∨ p.octets.getLast? = some slash then ⟨p.octets ++ name⟩
  else ⟨p.octets ++ slash :: name⟩

/-- What is left of octets behind others. -/
def dropFront? (front octets : List UInt8) : Option (List UInt8) :=
  if front.isPrefixOf octets then some (octets.drop front.length) else none

/-- The octets without a `./` in front. -/
def dropDotSlash (octets : List UInt8) : List UInt8 := (dropFront? [dot, slash] octets).getD octets

/-- The name of the file, if the last component is a name. -/
def fileName? (p : Path) : Option (List UInt8) :=
  match p.components.getLast? with
  | some (.name octets) => some octets
  | _ => none

/-- The part of a file name after its last dot. A dot that only comes first starts no extension. -/
def extensionOf? (name : List UInt8) : Option (List UInt8) :=
  let after := (name.reverse.takeWhile (· != dot)).reverse
  let before := name.take (name.length - after.length - 1)
  if after.length = name.length ∨ before = [] then none else some after

/-- The extension of the file, if it has one. -/
def extension? (p : Path) : Option (List UInt8) := p.fileName?.bind extensionOf?

end Path
end LambdaTally
