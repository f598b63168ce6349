import LambdaTally.Files.Path
import LambdaTally.Files.SystemError

/-!
# LambdaTally.Files.Tree

A tree of files: directories, regular files and symbolic links, and a working directory in it. A
path is looked up step by step, each link on the way being replaced by its target. What a look-up
finds has a place, the list of names that lead to it from the root through directories alone, so two
paths lead to the same thing exactly if they lead to the same place.
-/

namespace LambdaTally

abbrev FileName := List UInt8

/-- What a name in a directory stands for. A file may have a size and yet be unreadable. -/
inductive Node where
  | file (size : Nat) (content : Except SystemError (List UInt8))
  | directory (entries : List (FileName × Node))
  | link (target : Path)

namespace Node

def empty : Node := directory []

def isDirectory : Node → Bool
  | directory _ => true
  | _ => false

/-- A file that can be read. -/
def ofOctets (octets : List UInt8) : Node := file octets.length (.ok octets)

/-- The entries of a directory. -/
def entries : Node → List (FileName × Node)
  | directory entries => entries
  | _ => []

/-- What names lead to, through directories alone. -/
def at? : List FileName → Node → Option Node
  | [], node => some node
  | name :: rest, node => (node.entries.lookup name).bind (at? rest)

/-- The entries with a name standing for something new, in the place of what it stood for. -/
def setEntry (name : FileName) (node : Node) :
    List (FileName × Node) → List (FileName × Node)
  | [] => [(name, node)]
  | (other, kept) :: rest =>
    if other = name then (name, node) :: rest else (other, kept) :: setEntry name node rest

/-- The tree with something put where names lead, and with the directories on the way. -/
def put (node : Node) (names : List FileName) (leaf : Node) : Node :=
  match names with
  | [] => leaf
  | name :: rest =>
    let inner := (node.entries.lookup name).getD empty
    directory (setEntry name (put inner rest leaf) node.entries)

end Node

/-- A tree of files with the place of the working directory. -/
structure FileTree where
  root : Node
  here : List FileName

/-- A step of a look-up. -/
inductive Step where
  | stay
  | up
  | down (name : FileName)
  deriving DecidableEq, Repr

namespace Path

def isAbsolute (p : Path) : Bool := p.octets.head? == some slash

/-- The step that a stretch between slashes asks for. An empty one stays where it is, and so asks
for a directory like `.` does. -/
def stepOf (stretch : List UInt8) : Step :=
  if stretch = [] ∨ stretch = [dot] then .stay
  else if stretch = [dot, dot] then .up
  else .down stretch

/-- The steps of a path. -/
def steps (p : Path) : List Step :=
  (splitSlashes [] p.octets).map stepOf

def withoutFinalSlashes (p : Path) : Path :=
  ⟨(p.octets.reverse.dropWhile (· == slash)).reverse⟩

/-- The absolute path of a place. -/
def ofPlace (place : List FileName) : Path :=
  if place = [] then ⟨[slash]⟩ else ⟨place.flatMap fun name => slash :: name⟩

end Path

namespace FileTree

/-- The most links that one look-up follows. -/
def maxLinks : Nat := 40

/-- The longest name, and the longest path, that the system takes. -/
def maxName : Nat := 255

def maxPath : Nat := 4095

/-- Takes the steps of a look-up from a place. Behind a link `jump` goes on. -/
def takeSteps (root : Node) (jump : List FileName → List Step → Except SystemError (List FileName))
    (place : List FileName) : (steps : List Step) → Except SystemError (List FileName)
  | [] => .ok place
  | step :: rest =>
    match root.at? place with
    | some (.directory entries) =>
      match step with
      | .stay => takeSteps root jump place rest
      | .up => takeSteps root jump place.dropLast rest
      | .down name =>
        if maxName < name.length then .error .nameTooLong
        else
          match entries.lookup name with
          | none => .error .notFound
          | some (.link target) =>
            jump (if target.isAbsolute then [] else place) (target.steps ++ rest)
          | some _ => takeSteps root jump (place ++ [name]) rest
    | _ => .error .notDirectory

/-- Takes the steps of a look-up from a place, with a bound on the links that are still followed. -/
def follow (root : Node) :
    (links : Nat) → (place : List FileName) → (steps : List Step) →
      Except SystemError (List FileName)
  | 0 => takeSteps root fun _ _ => .error .tooManyLinks
  | links + 1 => takeSteps root (follow root links)

/-- Why a path leads nowhere, whatever the tree holds. -/
def misspelt? (p : Path) : Option SystemError :=
  if p.octets.contains 0 then some .nulInPath
  else if p.octets = [] then some .notFound
  else if maxPath < p.octets.length then some .nameTooLong
  else none

/-- The place that a path leads to, every link followed. -/
def place (t : FileTree) (p : Path) : Except SystemError (List FileName) :=
  match misspelt? p with
  | some e => .error e
  | none => follow t.root maxLinks (if p.isAbsolute then [] else t.here) p.steps

/-- What a path leads to, and its place. -/
def find (t : FileTree) (p : Path) : Except SystemError (List FileName × Node) :=
  match t.place p with
  | .error e => .error e
  | .ok place =>
    match t.root.at? place with
    | some node => .ok (place, node)
    | none => .error .notFound

def holds (t : FileTree) (p : Path) : Bool := (t.find p).isOk

/-- The content of the file at a path. -/
def read (t : FileTree) (p : Path) : Except SystemError (List UInt8) :=
  match t.find p with
  | .error e => .error e
  | .ok (_, .file _ content) => content
  | .ok _ => .error .isDirectory

/-- The tree with something put at a place. -/
def put (t : FileTree) (place : List FileName) (node : Node) : FileTree :=
  { t with root := t.root.put place node }

/-- The place where a file of the given path is created or overwritten. A link at the end of the path
is followed even if there is nothing behind it. -/
def newPlace (root : Node) (links : Nat) (start : List FileName) (p : Path) :
    Except SystemError (List FileName) :=
  let steps := p.withoutFinalSlashes.steps
  match follow root maxLinks (if p.isAbsolute then [] else start) steps.dropLast with
  | .error e => .error e
  | .ok parent =>
    match root.at? parent with
    | some (.directory entries) =>
      match steps.getLast? with
      | some (.down name) =>
        if p.octets.getLast? = some Path.slash then .error .isDirectory
        else if maxName < name.length then .error .nameTooLong
        else
          match entries.lookup name with
          | none => .ok (parent ++ [name])
          | some (.file ..) => .ok (parent ++ [name])
          | some (.directory _) => .error .isDirectory
          | some (.link target) =>
            match links with
            | 0 => .error .tooManyLinks
            | links + 1 => newPlace root links parent target
      | _ => .error .isDirectory
    | _ => .error .notDirectory

/-- Writes a file, over what it held before. -/
def write (t : FileTree) (p : Path) (octets : List UInt8) : Except SystemError FileTree :=
  match misspelt? p with
  | some e => .error e
  | none =>
    match newPlace t.root maxLinks t.here p with
    | .error e => .error e
    | .ok place => .ok (t.put place (.ofOctets octets))

end FileTree
end LambdaTally
