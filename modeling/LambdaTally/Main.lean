import LambdaTally.Command

/-!
# LambdaTally.Main

The program on the machine. What the roots hold is loaded into a tree of files, with the lists of
patterns that bear on it, the walk over that tree says which files to read, and the answer for them is
printed and written.

Everything is decided by `Command`; here is only the way to the system and back.
-/

namespace LambdaTally
namespace Main

def nameOf (s : String) : FileName := Utf8.encode s.toList

def textOf (name : FileName) : String := String.ofList (Path.display ⟨name⟩)

/-- The absolute path of a place. -/
def pathTo (names : List String) : String := "/" ++ "/".intercalate names

/-- The names on the way to a place. -/
def namesIn (path : String) : List String := (path.splitOn "/").filter (· != "")

/-- The number of an error and what the system says of it. -/
def numbered : IO.Error → Option UInt32 × String
  | .alreadyExists _ n text => (some n, text)
  | .otherError n text => (some n, text)
  | .resourceBusy n text => (some n, text)
  | .resourceVanished n text => (some n, text)
  | .unsupportedOperation n text => (some n, text)
  | .hardwareFault n text => (some n, text)
  | .unsatisfiedConstraints n text => (some n, text)
  | .illegalOperation n text => (some n, text)
  | .protocolError n text => (some n, text)
  | .timeExpired n text => (some n, text)
  | .interrupted _ n text => (some n, text)
  | .noFileOrDirectory _ n text => (some n, text)
  | .invalidArgument _ n text => (some n, text)
  | .permissionDenied _ n text => (some n, text)
  | .resourceExhausted _ n text => (some n, text)
  | .inappropriateType _ n text => (some n, text)
  | .noSuchThing _ n text => (some n, text)
  | .unexpectedEof => (none, "unexpected end of file")
  | .userError text => (none, text)

/-- The refusal behind an error. -/
def refusal (e : IO.Error) : SystemError :=
  match numbered e with
  | (some 2, _) => .notFound
  | (some 5, _) => .inputOutput
  | (some 20, _) => .notDirectory
  | (some 21, _) => .isDirectory
  | (some 36, _) => .nameTooLong
  | (some 40, _) => .tooManyLinks
  | (some n, text) => .other (text ++ " (os error " ++ toString n ++ ")")
  | (none, text) => .other text

def readFile (path : String) : IO (Except SystemError (List UInt8)) := do
  try return .ok (← IO.FS.readBinFile path).toList
  catch e => return .error (refusal e)

/-- A file whose content has no part in the walk is not read here. -/
def unread : Except SystemError (List UInt8) := .error (.other "not read")

/-- Puts a node where nothing has been put so far. -/
def putNew (t : FileTree) (names : List String) (node : Node) : FileTree :=
  let place := names.map nameOf
  if (t.root.at? place).isSome then t else t.put place node

/-- Loads what steps lead through from a directory: directories and links, and a file at the end,
which is read if it is `wanted`. -/
partial def loadSteps (wanted : Bool) (t : FileTree) (names : List String) :
    (steps : List String) → IO FileTree
  | [] => return t
  | "." :: rest => loadSteps wanted t names rest
  | ".." :: rest => loadSteps wanted t names.dropLast rest
  | name :: rest => do
    let inner := names ++ [name]
    try
      let here ← IO.FS.realPath (pathTo inner)
      if here.toString != pathTo inner then
        let link := Node.link (.ofString here.toString)
        loadSteps wanted (putNew t inner link) [] (namesIn here.toString ++ rest)
      else
        let data ← here.metadata
        let size := data.byteSize.toNat
        if data.type matches .dir then loadSteps wanted (putNew t inner .empty) inner rest
        else if wanted then return t.put (inner.map nameOf) (.file size (← readFile (pathTo inner)))
        else return putNew t inner (.file size unread)
    catch _ => return t

/-- Loads what a path leads through. -/
def loadPath (wanted : Bool) (t : FileTree) (p : Path) : IO FileTree :=
  loadSteps wanted t (if p.isAbsolute then [] else t.here.map textOf) (namesIn (textOf p.octets))

/-- Loads the lists of patterns that a directory holds, and the one that is kept for it if it is the top
of a repository. -/
def loadLists (t : FileTree) (names : List String) : IO FileTree := do
  let mut t := t
  for name in [Walk.ignoreName, Walk.gitIgnoreName] ++ Repositories.standard.marks do
    t ← loadSteps true t names [textOf name]
  let p := Path.ofString (pathTo names)
  let git := p.join Walk.gitName
  if t.holds git then
    if let some own := Walk.referred? t git then
      t ← loadPath true t (own.join Walk.commonName)
    if let some keeper := Walk.keeper? t p then
      t ← loadPath true t (keeper.join Walk.excludeName)
  return t

/-- Loads what stands at a place: of a directory all that is below it, of a link the way to its target
and, on request, all that is below that, unless the target is `around` the link. -/
partial def load (follow : Bool) (around : List (List String)) (t : FileTree) (names : List String) :
    IO FileTree := do
  try
    let here ← IO.FS.realPath (pathTo names)
    if here.toString == pathTo names then
      let data ← here.metadata
      match data.type with
      | .dir =>
        let mut t ← loadLists (putNew t names .empty) names
        for e in ← here.readDir do
          t ← load follow (names :: around) t (names ++ [e.fileName])
        return t
      | .file => return putNew t names (.file data.byteSize.toNat unread)
      | _ => return t
    else
      let target := namesIn here.toString
      let t := putNew t names (.link (.ofString here.toString))
      if follow && !around.contains target then
        load follow around (← loadSteps false t [] target) target
      else return t
  catch _ => return t

/-- Loads what a run needs of the file system: the way to each root, the lists of patterns of the
directories around it, and all that is below it. -/
def loadRoots (settings : Settings) : IO FileTree := do
  let here := namesIn (← IO.currentDir).toString
  let mut t ← loadSteps false ⟨.empty, here.map nameOf⟩ [] here
  for root in settings.walk.roots do
    t ← loadPath false t root
    try
      let place := namesIn (← IO.FS.realPath (textOf root.octets)).toString
      t ← loadSteps false t [] place
      for depth in List.range place.length do
        t ← loadLists t (place.take depth)
      t ← load settings.walk.follow [] t place
    catch _ => pure ()
  return t

/-- The value of a line of a configuration that names the user's own list. -/
def listNamed? (line : List Char) : Option (List Char) :=
  match line.span (· != '=') with
  | (key, '=' :: value) =>
    let inner := (CharClass.trim value).dropWhile (· == '"')
    let bare := CharClass.trim (inner.reverse.dropWhile (· == '"')).reverse
    if CharClass.asciiLower (CharClass.trim key) == "excludesfile".toList && bare != [] &&
        !bare.any CharClass.isBlank then some bare
    else none
  | _ => none

/-- The directories in which the user's configuration is looked for. -/
def homes : IO (Option String × Option String) := do
  let home ← IO.getEnv "HOME"
  let configured ← IO.getEnv "XDG_CONFIG_HOME"
  return (home, (configured.filter (· != "")).or (home.map (· ++ "/.config")))

/-- What is known of all repositories: the user's own list is the one that a configuration names, or
else the one that is called `git/ignore`. -/
def repositories : IO Repositories := do
  let (home, config) ← homes
  let expand (text : List Char) : String := (String.ofList text).replace "~" (home.getD "~")
  let mut named := none
  for path in (home.map (· ++ "/.gitconfig")).toList ++ (config.map (· ++ "/git/config")).toList do
    if let .ok octets ← readFile path then
      named := named.or ((Rules.texts octets).findSome? listNamed?)
  match (named.map expand).or (config.map (· ++ "/git/ignore")) with
  | none => return .standard
  | some path =>
    match ← readFile path with
    | .error _ => return .standard
    | .ok octets =>
      let here := Path.ofString (← IO.currentDir).toString
      return { Repositories.standard with everywhere := ⟨here, Rules.ofOctets octets⟩ }

/-- Runs the program over what has been loaded. The files that are to be counted are read here. -/
def respond (settings : Settings) : IO Command.Response := do
  match (← loadRoots settings).walk settings.walk settings.filter (← repositories) with
  | .error e => return Command.ofRun settings (.error (.walk e))
  | .ok paths =>
    let files ← paths.mapM fun path => do
      return LoadedFile.mk path (← readFile (String.ofList path.display))
    match RunResult.ofFiles settings files with
    | .error e => return Command.ofRun settings (.error (.read e))
    | .ok result => return Command.ofRun settings (.ok result)

def writeSideFiles : List (Path × List Char) → IO (Option SystemError)
  | [] => return none
  | (path, text) :: rest => do
    try
      IO.FS.writeBinFile (String.ofList path.display) ⟨(Utf8.encode text).toArray⟩
      writeSideFiles rest
    catch e => return some (refusal e)

/-- The number of processors, one if the system does not tell. -/
def processors : IO Nat := do
  match ← readFile "/proc/cpuinfo" with
  | .error _ => return 1
  | .ok octets =>
    let lines := (Rules.texts octets).filter fun line => "processor".toList.isPrefixOf line
    return max 1 lines.length

def printLines (lines : List (List Char)) : IO Unit := do
  let errors ← IO.getStderr
  lines.forM fun line => errors.putStrLn (String.ofList line)

/-- Prints and writes an answer, and gives the code to end with. -/
def carryOut (r : Command.Response) : IO Nat := do
  printLines r.errors
  let output ← IO.getStdout
  output.putStr (String.ofList r.output)
  output.flush
  let final := r.after (← writeSideFiles r.sideFiles)
  printLines (final.errors.drop r.errors.length)
  return final.code

/-- The program for the words of a command line. -/
def start (words : List String) : IO Nat := do
  match Command.read (← processors) (words.map String.toList) with
  | .error response => carryOut response
  | .ok settings => carryOut (← respond settings)

end Main
end LambdaTally

def main (args : List String) : IO UInt32 := do
  return UInt32.ofNat (← LambdaTally.Main.start args)
