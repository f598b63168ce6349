import LambdaTally.Files.Overrides
import LambdaTally.Files.Tree
import LambdaTally.Settings

/-!
# LambdaTally.Files.Walk

The files that a run examines. Each root is walked by itself: a root that is a file is examined
whatever it is called, and below a root that is a directory every entry is decided about, first by
the overrides, then by the lists of patterns that bear on it, then by whether its name is hidden, and
last by the filter. A directory that is dropped is not entered.

The lists are of four sorts, and one of an earlier sort goes first: the `.ignore` and the `.gitignore`
of the directories around an entry, the `info/exclude` of a repository, and the user's own list, which
is not a part of the tree. All but `.ignore` count in repositories only.

Below a root a link is followed only on request, and then never to a directory that the walk is in.
So a walk ends, and the number of directories of the tree bounds how deep it goes.
-/

namespace LambdaTally

/-- Why no file is examined at all. -/
inductive WalkError where
  | missingRoot (path : Path)
  | badGlob (glob : BadGlob)
  deriving DecidableEq, Repr

namespace WalkError

def message : WalkError → List Char
  | missingRoot path => "Invalid configuration: Path not found: ".toList ++ path.display
  | badGlob glob =>
    "Walk error: error parsing glob '".toList ++ glob.text ++ "': ".toList ++
      glob.cause.message.toList

end WalkError

/-- A directory whose lists of patterns bear on the directory being read: the names from it down to
that one, the lists, and whether it is the top of a repository. -/
structure Level where
  names : List FileName
  ignore : Rules
  gitIgnore : Rules
  exclude : Rules
  isRepository : Bool

/-- The directory being read: its path as written, its place, how far it is below the root, the
directories whose patterns bear on it, from itself outwards, and the places of the directories that
the walk is in. -/
structure Site where
  path : Path
  place : List FileName
  depth : Nat
  levels : List Level
  around : List (List FileName)

/-- What is known of all repositories: the names of which the top of one holds some, and the list of
patterns that counts in every one. -/
structure Repositories where
  marks : List FileName
  everywhere : RuleList

/-- Repositories of which there is no list that counts in all. -/
def Repositories.standard : Repositories where
  marks := [".git", ".jj"].map fun name => Utf8.encode name.toList
  everywhere := .empty

/-- What a walk goes by. -/
structure Walk where
  tree : FileTree
  options : WalkOptions
  filter : Filter
  overrides : Overrides
  repositories : Repositories

namespace Walk

def ignoreName : FileName := Utf8.encode ".ignore".toList

def gitIgnoreName : FileName := Utf8.encode ".gitignore".toList

def gitName : FileName := Utf8.encode ".git".toList

/-- The list of a repository, seen from the directory that keeps it. -/
def excludeName : List UInt8 := Utf8.encode "info/exclude".toList

/-- The words in front of the path in a file called `.git`. -/
def referralMark : List UInt8 := Utf8.encode "gitdir: ".toList

/-- The file in which the directory of one working directory says what it has in common with others. -/
def commonName : FileName := Utf8.encode "commondir".toList

/-- The rules of a file; none if it cannot be read. -/
def rulesAt (t : FileTree) (p : Path) : Rules :=
  match t.read p with
  | .ok octets => Rules.ofOctets octets
  | .error _ => []

/-- The first line of a file, if it can be read. -/
def firstLine? (t : FileTree) (p : Path) : Option (List UInt8) :=
  (t.read p).toOption.bind fun octets =>
    (Rules.lines [] [] octets).getLast?.filter fun line => (Utf8.decode? line).isSome

/-- The directory that a file called `.git` refers to. -/
def referred? (t : FileTree) (git : Path) : Option Path :=
  (firstLine? t git).bind fun line => (Path.dropFront? referralMark line).map Path.mk

/-- The directory that keeps the list of the repository whose top a directory is: its `.git` or, where
that is a file, the one that the directory it refers to has in common with others. -/
def keeper? (t : FileTree) (p : Path) : Option Path :=
  let git := p.join gitName
  match t.find git with
  | .ok (_, .file ..) =>
    (referred? t git).bind fun own =>
      (firstLine? t (own.join commonName)).map fun common =>
        if common.head? = some Path.dot then own.join common else ⟨common⟩
  | _ => some git

/-- The `info/exclude` of the repository whose top a directory is. -/
def excludeAt (t : FileTree) (p : Path) : Rules :=
  match keeper? t p with
  | some keeper => rulesAt t (keeper.join excludeName)
  | none => []

/-- The level of a directory, seen from the one that names lead to. Above a root the tops of
repositories are made out only where the lists called `.gitignore` count. -/
def levelAt (w : Walk) (above : Bool) (p : Path) (names : List FileName) : Level where
  names := names
  ignore := rulesAt w.tree (p.join ignoreName)
  gitIgnore := if w.options.gitIgnore then rulesAt w.tree (p.join gitIgnoreName) else []
  exclude := excludeAt w.tree p
  isRepository := (w.options.gitIgnore || !above) &&
    w.repositories.marks.any fun mark => w.tree.holds (p.join mark)

/-- The levels of the directories above a place, from the innermost outwards. -/
def levelsAbove (w : Walk) (place : List FileName) : List Level :=
  (List.range place.length).reverse.map fun n =>
    w.levelAt true (Path.ofPlace (place.take n)) (place.drop n)

/-- The level seen from one name further down. -/
def Level.extend (l : Level) (name : FileName) : Level := { l with names := l.names ++ [name] }

/-- A path of names below a level, as patterns see it. -/
def joined (names : List FileName) : List UInt8 := [Path.slash].intercalate names

/-- The levels through the first one that is the top of a repository. -/
def withinRepository : List Level → List Level
  | [] => []
  | l :: rest => if l.isRepository then [l] else l :: withinRepository rest

/-- The rule that decides about an entry. Of two lists of one sort that of the inner level goes first.
In a repository the lists count up to its top. -/
def deciding? (w : Walk) (levels : List Level) (path : Path) (name : FileName) (isDirectory : Bool) :
    Option Rule :=
  let among (levels : List Level) (rules : Level → Rules) : Option Rule :=
    levels.findSome? fun l => (rules l).deciding? (joined (l.names ++ [name])) isDirectory
  let within := withinRepository levels
  (among levels (·.ignore)).or
    (if levels.any (·.isRepository) then
      (among within (·.gitIgnore)).or
        ((among within (·.exclude)).or (w.repositories.everywhere.deciding? path isDirectory))
    else none)

def isHidden (name : FileName) : Bool := name.head? == some Path.dot

/-- An entry of a directory is dropped before the filter is asked. -/
def isDropped (w : Walk) (site : Site) (path : Path) (name : FileName) (isDirectory : Bool) :
    Bool :=
  match w.overrides.verdict? path isDirectory with
  | some verdict => verdict == .drop
  | none =>
    match w.deciding? site.levels path name isDirectory with
    | some rule => !rule.negated
    | none => !w.options.hidden && isHidden name

/-- What an entry comes to: a file to examine or a directory to enter. -/
inductive Entry where
  | file (path : Path)
  | directory (site : Site)

/-- What an entry of a directory stands for, and its place. Nothing comes of a link that is not to be
followed, that leads nowhere or that leads back. -/
def target? (w : Walk) (site : Site) (path : Path) (name : FileName) (node : Node) :
    Option (List FileName × Node) :=
  match node with
  | .link _ =>
    if w.options.follow then
      match w.tree.find path with
      | .ok (place, found) =>
        if found.isDirectory && site.around.contains place then none else some (place, found)
      | .error _ => none
    else none
  | node => some (site.place ++ [name], node)

/-- The site of a directory inside another. -/
def inner (w : Walk) (site : Site) (path : Path) (name : FileName) (place : List FileName) : Site
    where
  path := path
  place := place
  depth := site.depth + 1
  levels := w.levelAt false path [] :: site.levels.map fun l => Level.extend l name
  around := place :: site.around

/-- What an entry of a directory comes to, if anything. -/
def entry? (w : Walk) (site : Site) (name : FileName) (node : Node) : Option Entry :=
  let path := site.path.join name
  match w.target? site path name node with
  | none => none
  | some (place, found) =>
    if w.isDropped site path name found.isDirectory then none
    else
      match found with
      | .directory _ => some (.directory (w.inner site path name place))
      | .file size _ =>
        if w.filter.accepts path && w.filter.fits size then some (.file path) else none
      | .link _ => none

/-- The entries of a directory, unless it is too deep to be read. -/
def entriesOf (w : Walk) (site : Site) : List (FileName × Node) :=
  if w.options.maxDepth.any (· ≤ site.depth) then []
  else ((w.tree.root.at? site.place).map Node.entries).getD []

/-- The files below a directory, as deep as the bound allows. -/
def filesBelow (w : Walk) : (bound : Nat) → Site → List Path
  | 0, _ => []
  | bound + 1, site =>
    (w.entriesOf site).flatMap fun (name, node) =>
      match w.entry? site name node with
      | none => []
      | some (.file path) => [path]
      | some (.directory site) => filesBelow w bound site

/-- The site of a root. -/
def siteOf (w : Walk) (root : Path) (place : List FileName) : Site where
  path := root
  place := place
  depth := 0
  levels := w.levelAt false root [] :: w.levelsAbove place
  around := [place]

/-- A root of this name stands for the standard input, which is not examined. -/
def standardInput : Path := .ofString "-"

/-- The files of a root. -/
def filesOf (w : Walk) (bound : Nat) (root : Path) : List Path :=
  if root.components = standardInput.components then []
  else
    match w.tree.find root with
    | .ok (place, .directory _) => w.filesBelow bound (w.siteOf root place)
    | .ok (_, .file ..) => [root]
    | _ => []

end Walk

mutual

/-- The number of directories of a tree. -/
def Node.directories : Node → Nat
  | .directory entries => 1 + Node.directoriesIn entries
  | _ => 0

def Node.directoriesIn : List (FileName × Node) → Nat
  | [] => 0
  | (_, node) :: rest => node.directories + Node.directoriesIn rest

end

/-- A bound on the depth of any walk. Between two links that are followed a walk goes down the tree,
and the directories that links lead to are all different. -/
def FileTree.depthBound (t : FileTree) : Nat := (t.root.directories + 1) * (t.root.directories + 1)

/-- The files that a run examines, in the order of the walk. The roots are looked at before the
patterns are. -/
def FileTree.walk (t : FileTree) (options : WalkOptions) (filter : Filter)
    (repositories : Repositories := .standard) : Except WalkError (List Path) :=
  match options.roots with
  | [] => .ok []
  | first :: rest =>
    match (first :: rest).find? fun root => !t.holds root with
    | some root => .error (.missingRoot root)
    | none =>
      match Overrides.read first options.includes options.excludes with
      | .error glob => .error (.badGlob glob)
      | .ok overrides =>
        .ok ((first :: rest).flatMap
          (Walk.filesOf ⟨t, options, filter, overrides, repositories⟩ t.depthBound))

end LambdaTally
