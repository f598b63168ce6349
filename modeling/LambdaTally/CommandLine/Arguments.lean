import LambdaTally.CommandLine.Value
import LambdaTally.Settings

/-!
# LambdaTally.CommandLine.Arguments

The command line: its options, and how a list of words is read as values for them. Words are read
from left to right. A value that comes as a word of its own is taken up by its option only when the
next option or path is seen, so an unknown option right behind it is reported first.
-/

namespace LambdaTally
namespace CommandLine

/-- An option that is on or off, or is counted. -/
inductive Switch where
  | desc
  | totalOnly
  | hidden
  | noGitignore
  | follow
  | strict
  | verbose
  | help
  | version
  deriving DecidableEq, Repr

/-- An option that takes a value. -/
inductive Parameter where
  | format
  | sort
  | summaryOut
  | ext
  | excludeExt
  | maxSize
  | maxDepth
  | overrideInclude
  | overrideExclude
  | jobs
  | walkThreads
  | sampleProbability
  | contextMargin
  | seed
  | samplesOut
  deriving DecidableEq, Repr

/-- What an option's name stands for. -/
inductive OptionName where
  | switch (s : Switch)
  | parameter (p : Parameter)
  deriving DecidableEq, Repr

/-- The options by their long names. -/
def longNames : List (String × OptionName) :=
  [("format", .parameter .format), ("sort", .parameter .sort), ("desc", .switch .desc),
   ("total-only", .switch .totalOnly), ("summary-out", .parameter .summaryOut),
   ("ext", .parameter .ext), ("exclude-ext", .parameter .excludeExt),
   ("max-size", .parameter .maxSize), ("hidden", .switch .hidden),
   ("no-gitignore", .switch .noGitignore), ("follow", .switch .follow),
   ("max-depth", .parameter .maxDepth), ("override-include", .parameter .overrideInclude),
   ("override-exclude", .parameter .overrideExclude), ("jobs", .parameter .jobs),
   ("walk-threads", .parameter .walkThreads),
   ("sample-probability", .parameter .sampleProbability),
   ("context-margin", .parameter .contextMargin), ("seed", .parameter .seed),
   ("samples-out", .parameter .samplesOut), ("strict", .switch .strict),
   ("verbose", .switch .verbose), ("help", .switch .help), ("version", .switch .version)]

/-- The options by their short names. -/
def shortNames : List (Char × OptionName) :=
  [('j', .parameter .jobs), ('v', .switch .verbose), ('h', .switch .help),
   ('V', .switch .version)]

/-- Why a command line is not carried out. -/
inductive UsageError where
  | unknownArgument
  | invalidValue
  | valueValidation (cause : ValueError)
  | argumentConflict
  | tooManyValues
  | displayHelp
  | displayVersion
  deriving DecidableEq, Repr

/-- The values given on a command line. An option that was not given has none. -/
structure Arguments where
  format : Option OutputFormat
  sort : Option SortKey
  desc : Bool
  totalOnly : Bool
  summaryOut : Option Path
  ext : List (List Char)
  excludeExt : List (List Char)
  maxSize : Option Nat
  hidden : Bool
  noGitignore : Bool
  follow : Bool
  maxDepth : Option Nat
  overrideInclude : List (List Char)
  overrideExclude : List (List Char)
  jobs : Option Nat
  walkThreads : Option Nat
  sampleProbability : Option Binary64
  contextMargin : Option Nat
  seed : Option UInt64
  samplesOut : Option Path
  strict : Bool
  verbose : Nat
  paths : List Path
  deriving DecidableEq, Repr

namespace Arguments

def empty : Arguments :=
  { format := none, sort := none, desc := false, totalOnly := false, summaryOut := none, ext := []
    excludeExt := [], maxSize := none, hidden := false, noGitignore := false, follow := false
    maxDepth := none, overrideInclude := [], overrideExclude := [], jobs := none
    walkThreads := none, sampleProbability := none, contextMargin := none, seed := none
    samplesOut := none, strict := false, verbose := 0, paths := [] }

/-- The name of a format. -/
def formats : List (String × OutputFormat) :=
  [("table", .table), ("csv", .csv), ("tsv", .tsv), ("json", .json), ("jsonl", .jsonl),
   ("yaml", .yaml)]

/-- The name of a sort key. -/
def sortKeys : List (String × SortKey) := [("path", .path), ("count", .count)]

/-- The value with a given name. -/
def readName {α : Type} (names : List (String × α)) (text : List Char) : Except UsageError α :=
  match names.lookup (String.ofList text) with
  | some value => .ok value
  | none => .error .invalidValue

/-- A path; an empty one is none. -/
def readPath (text : List Char) : Except UsageError Path :=
  if text = [] then .error .invalidValue else .ok (.ofText text)

/-- The entries of a list written with commas. -/
def splitCommas (read : List Char) : List Char → List (List Char)
  | [] => [read.reverse]
  | ch :: rest =>
    if ch = ',' then read.reverse :: splitCommas [] rest else splitCommas (ch :: read) rest

/-- A value for an option that may be given once: the option must be free, and the text must read as
a value. -/
def once {α : Type} (present : Option α) (value : Except UsageError α) : Except UsageError α :=
  if present.isSome then .error .argumentConflict else value

def validated {α : Type} (value : Except ValueError α) : Except UsageError α :=
  value.mapError .valueValidation

/-- Takes up a value of an option. -/
def setParameter (a : Arguments) (p : Parameter) (text : List Char) :
    Except UsageError Arguments := do
  match p with
  | .format => return { a with format := some (← once a.format (readName formats text)) }
  | .sort => return { a with sort := some (← once a.sort (readName sortKeys text)) }
  | .summaryOut => return { a with summaryOut := some (← once a.summaryOut (readPath text)) }
  | .ext => return { a with ext := a.ext ++ splitCommas [] text }
  | .excludeExt => return { a with excludeExt := a.excludeExt ++ splitCommas [] text }
  | .maxSize => return { a with maxSize := some (← once a.maxSize (validated (readSize text))) }
  | .maxDepth => return { a with maxDepth := some (← once a.maxDepth (validated (readNumber text))) }
  | .overrideInclude => return { a with overrideInclude := a.overrideInclude ++ [text] }
  | .overrideExclude => return { a with overrideExclude := a.overrideExclude ++ [text] }
  | .jobs => return { a with jobs := some (← once a.jobs (validated (readPositive text))) }
  | .walkThreads =>
    return { a with walkThreads := some (← once a.walkThreads (validated (readPositive text))) }
  | .sampleProbability =>
    return { a with
      sampleProbability :=
        some (← once a.sampleProbability (validated (readProbability text))) }
  | .contextMargin =>
    return { a with contextMargin := some (← once a.contextMargin (validated (readNumber text))) }
  | .seed =>
    return { a with
      seed := some (← once a.seed (validated ((readNumber text).map UInt64.ofNat))) }
  | .samplesOut => return { a with samplesOut := some (← once a.samplesOut (readPath text)) }

/-- Takes up a switch. One that is not counted may be given once. -/
def setSwitch (a : Arguments) (s : Switch) : Except UsageError Arguments :=
  match s with
  | .desc => if a.desc then .error .argumentConflict else .ok { a with desc := true }
  | .totalOnly =>
    if a.totalOnly then .error .argumentConflict else .ok { a with totalOnly := true }
  | .hidden => if a.hidden then .error .argumentConflict else .ok { a with hidden := true }
  | .noGitignore =>
    if a.noGitignore then .error .argumentConflict else .ok { a with noGitignore := true }
  | .follow => if a.follow then .error .argumentConflict else .ok { a with follow := true }
  | .strict => if a.strict then .error .argumentConflict else .ok { a with strict := true }
  | .verbose => .ok { a with verbose := a.verbose + 1 }
  | .help => .error .displayHelp
  | .version => .error .displayVersion

end Arguments

/-- What has been read but not taken up yet: an option with or without its value, or paths, latest
first. -/
inductive Pending where
  | nothing
  | parameter (p : Parameter) (value : Option (List Char))
  | paths (texts : List (List Char))
  deriving DecidableEq, Repr

/-- The state of reading a command line. After `--` every word is a path. -/
structure Reading where
  arguments : Arguments
  pending : Pending
  onlyPaths : Bool
  deriving DecidableEq, Repr

namespace Reading

def start : Reading := ⟨.empty, .nothing, false⟩

/-- Takes up what is pending. An option that still lacks its value fails here. -/
def settle (r : Reading) : Except UsageError Arguments :=
  match r.pending with
  | .nothing => .ok r.arguments
  | .parameter _ none => .error .invalidValue
  | .parameter p (some text) => r.arguments.setParameter p text
  | .paths texts => do
    let paths ← texts.reverse.mapM Arguments.readPath
    return { r.arguments with paths := r.arguments.paths ++ paths }

/-- Reads a path. -/
def path (r : Reading) (text : List Char) : Except UsageError Reading :=
  match r.pending with
  | .paths texts => .ok { r with pending := .paths (text :: texts) }
  | _ => do return { r with arguments := ← r.settle, pending := .paths [text] }

/-- Reads a switch. -/
def switch (r : Reading) (s : Switch) : Except UsageError Reading := do
  return { r with arguments := ← (← r.settle).setSwitch s, pending := .nothing }

/-- Reads an option whose value, if not given with it, is the next word. -/
def parameter (r : Reading) (p : Parameter) (value : Option (List Char)) :
    Except UsageError Reading := do
  let arguments ← r.settle
  match value with
  | some text => return { r with arguments := ← arguments.setParameter p text, pending := .nothing }
  | none => return { r with arguments := arguments, pending := .parameter p none }

/-- Splits a long option at its first equals sign. -/
def splitEquals (text : List Char) : List Char × Option (List Char) :=
  match text.dropWhile (· != '=') with
  | _ :: value => (text.takeWhile (· != '='), some value)
  | [] => (text, none)

/-- Reads a long option, without its two dashes. -/
def long (r : Reading) (text : List Char) : Except UsageError Reading :=
  let (name, value) := splitEquals text
  match longNames.lookup (String.ofList name) with
  | none => .error .unknownArgument
  | some (.parameter p) => r.parameter p value
  | some (.switch s) => if value.isSome then .error .tooManyValues else r.switch s

/-- Reads short options, without their dash. An option that takes a value takes what is left, an
equals sign at its front apart. -/
def short (r : Reading) : List Char → Except UsageError Reading
  | [] => .ok r
  | ch :: rest =>
    match shortNames.lookup ch with
    | none => .error .unknownArgument
    | some (.switch s) =>
      match r.switch s with
      | .ok r => short r rest
      | .error e => .error e
    | some (.parameter p) =>
      match rest with
      | [] => r.parameter p none
      | '=' :: value => r.parameter p (some value)
      | value => r.parameter p (some value)

/-- Reads a word that is no option: the value that an option waits for, or a path. -/
def plain (r : Reading) (text : List Char) : Except UsageError Reading :=
  match r.pending with
  | .parameter p none => .ok { r with pending := .parameter p (some text) }
  | _ => r.path text

/-- Reads a word. -/
def word (r : Reading) (text : List Char) : Except UsageError Reading :=
  if r.onlyPaths then r.path text
  else
    match text with
    | ['-', '-'] => .ok { r with onlyPaths := true }
    | '-' :: '-' :: name => r.long name
    | ['-'] => r.plain text
    | '-' :: names => r.short names
    | _ => r.plain text

end Reading

/-- Reads a command line. -/
def Arguments.read (words : List (List Char)) : Except UsageError Arguments := do
  (← words.foldlM Reading.word .start).settle

/-- How much is logged, by the number of times that more was asked for. -/
def Arguments.logLevel (a : Arguments) : String :=
  match a.verbose with
  | 0 => "warn"
  | 1 => "info"
  | 2 => "debug"
  | _ => "trace"

/-- The extensions to examine. They may be written with dots in front; without any given, the
extensions of C++ sources are examined. -/
def Arguments.filter (a : Arguments) : Filter :=
  { allow :=
      if a.ext.isEmpty then Filter.sourceExtensions else a.ext.map (·.dropWhile (· == '.'))
    deny := a.excludeExt
    maxSize := a.maxSize }

/-- The settings that a command line asks for, on a machine with `processors` processors. -/
def Arguments.settings (a : Arguments) (processors : Nat) : Settings :=
  let jobs := a.jobs.getD processors
  { walk :=
      { roots := if a.paths.isEmpty then [.ofString "."] else a.paths
        threads := a.walkThreads.getD jobs
        hidden := a.hidden
        gitIgnore := !a.noGitignore
        maxDepth := a.maxDepth
        follow := a.follow
        includes := a.overrideInclude
        excludes := a.overrideExclude }
    filter := a.filter
    sampling :=
      { probability := a.sampleProbability.getD Sampling.defaultProbability
        margin := a.contextMargin.getD Sampling.defaultMargin
        seed := a.seed.getD 0 }
    format := a.format.getD .table
    sortKey := a.sort.getD .path
    descending := a.desc
    mode := if a.totalOnly then .totalOnly else .full
    samplesOut := a.samplesOut
    summaryOut := a.summaryOut
    jobs := jobs
    strict := a.strict }

end CommandLine
end LambdaTally
