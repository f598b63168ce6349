import LambdaTally.Text.Utf8

/-!
# LambdaTally.Files.Glob

Patterns for paths. A pattern is matched against the octets of a whole path. `?` and `*` stay within
a name; `**` between slashes crosses them. A class in brackets, unlike these, may match a slash. A
group in braces matches as one of its branches does.
-/

namespace LambdaTally

/-- Why a text is no pattern. -/
inductive GlobError where
  | unclosedClass
  | invalidRange (first last : Char)
  | unopenedGroup
  | unclosedGroup
  | finalBackslash
  deriving DecidableEq, Repr

def GlobError.message : GlobError → String
  | .unclosedClass => "unclosed character class; missing ']'"
  | .invalidRange first last => "invalid range; '" ++ first.toString ++ "' > '" ++ last.toString ++ "'"
  | .unopenedGroup =>
    "unopened alternate group; missing '\x7b' (maybe escape '\x7d' with '[\x7d]'?)"
  | .unclosedGroup =>
    "unclosed alternate group; missing '\x7d' (maybe escape '\x7b' with '[\x7b]'?)"
  | .finalBackslash => "dangling '\\'"

/-- A range of octets, both ends in it. -/
structure OctetRange where
  first : UInt8
  last : UInt8
  deriving DecidableEq, Repr

/-- A part of a pattern. -/
inductive GlobPart where
  | octet (b : UInt8)
  /-- One octet of a name. -/
  | any
  /-- Some octets of a name, or none. -/
  | many
  | oneOf (ranges : List OctetRange)
  | noneOf (ranges : List OctetRange)
  /-- `**` in front: nothing, or directories down to the name. -/
  | leading
  /-- `**` between slashes, with them: one slash, or directories between two. -/
  | between
  /-- `**` at the end, with the slash before it: whatever is inside a directory. -/
  | inside
  | group (branches : List (List GlobPart))
  deriving Repr

abbrev Glob := List GlobPart

namespace GlobPart

def slash : UInt8 := 0x2F

def inRanges (ranges : List OctetRange) (b : UInt8) : Bool :=
  ranges.any fun r => r.first ≤ b && b ≤ r.last

/-- One octet with a property, and then the rest. -/
def matchOctet (p : UInt8 → Bool) (rest : List UInt8 → Bool) : List UInt8 → Bool
  | [] => false
  | b :: path => p b && rest path

/-- Any number of octets with a property, and then the rest. -/
def matchMany (p : UInt8 → Bool) (rest : List UInt8 → Bool) : List UInt8 → Bool
  | [] => rest []
  | b :: path => rest (b :: path) || (p b && matchMany p rest path)

/-- Any number of octets and a slash, and then the rest. -/
def matchThroughSlash (rest : List UInt8 → Bool) : List UInt8 → Bool
  | [] => false
  | b :: path => (b == slash && rest path) || matchThroughSlash rest path

/-- A slash, and then the rest. -/
def matchSlash (rest : List UInt8 → Bool) : List UInt8 → Bool := matchOctet (· == slash) rest

mutual

/-- The parts match the front of a path and the rest matches what is left. -/
def matchAll (rest : List UInt8 → Bool) : List GlobPart → List UInt8 → Bool
  | [] => rest
  | part :: parts => matchOne (matchAll rest parts) part

def matchOne (rest : List UInt8 → Bool) : GlobPart → List UInt8 → Bool
  | octet b => matchOctet (· == b) rest
  | any => matchOctet (· != slash) rest
  | many => matchMany (· != slash) rest
  | oneOf ranges => matchOctet (inRanges ranges) rest
  | noneOf ranges => matchOctet (fun b => !inRanges ranges b) rest
  | leading => fun path => rest path || matchThroughSlash rest path
  | between => fun path => matchSlash (fun path => rest path || matchThroughSlash rest path) path
  | inside => matchSlash (matchMany (fun _ => true) rest)
  | group [] => rest
  | group (branch :: branches) => matchBranches rest (branch :: branches)

def matchBranches (rest : List UInt8 → Bool) : List (List GlobPart) → List UInt8 → Bool
  | [], _ => false
  | branch :: branches, path => matchAll rest branch path || matchBranches rest branches path

end

/-- A group with nothing in it. -/
def isVoid : GlobPart → Bool
  | group [] => true
  | _ => false

/-- The group of some branches. Empty ones are left out. -/
def ofBranches (branches : List (List GlobPart)) : GlobPart :=
  group (branches.filter fun branch => !branch.all isVoid)

end GlobPart

namespace Glob

/-- The pattern matches a path. A pattern that is nothing but `**` matches every path. -/
def isMatch (g : Glob) (path : List UInt8) : Bool :=
  match g with
  | [.leading] => true
  | parts => GlobPart.matchAll List.isEmpty parts path

/-- A group that has been opened: what stands before it, and its branches so far, both latest
first. -/
structure Opened where
  before : List GlobPart
  branches : List (List GlobPart)

/-- The state of reading a pattern: the groups around, innermost first, the parts of the branch being
read, latest first, and the character read last. Once a bracket has been found that no other one
closes, and that is let pass, brackets are plain characters. -/
structure Reading where
  opened : List Opened
  parts : List GlobPart
  last : Option Char
  plainBrackets : Bool

namespace Reading

def start : Reading := ⟨[], [], none, false⟩

def push (r : Reading) (parts : List GlobPart) (last : Char) : Reading :=
  { r with parts := parts.reverse ++ r.parts, last := some last }

/-- The octets of a character, one part each. -/
def literal (c : Char) : List GlobPart := (Utf8.encode [c]).map .octet

/-- Puts a part in the place of the one read last, unless that one already crosses slashes. -/
def replaceLast (r : Reading) (part : GlobPart) (last : Char) : Reading :=
  match r.parts with
  | .leading :: _ => { r with last := some last }
  | .inside :: _ => { r with last := some last }
  | _ :: before => { r with parts := part :: before, last := some last }
  | [] => r

/-- Whether `**` behind what has been read may be special. -/
def mayCross (r : Reading) : Bool :=
  r.last == some '/' || (!r.opened.isEmpty && (r.last == some ',' || r.last == some '\x7b'))

/-- Reads what follows `**`, and gives the state after it and what is left: `**` is special only
between slashes or at the ends of a branch, and takes the slashes with it. -/
def doubleStar (r : Reading) (text : List Char) : Reading × List Char :=
  match r.parts, text with
  | [], [] => (r.push [.leading] '*', [])
  | [], c :: rest =>
    if c = '/' then (r.push [.leading] '/', rest) else (r.push [.many, .many] '*', c :: rest)
  | _ :: _, [] =>
    if r.mayCross then (r.replaceLast .inside '*', []) else (r.push [.many, .many] '*', [])
  | _ :: _, c :: rest =>
    if r.mayCross = false then (r.push [.many, .many] '*', c :: rest)
    else if c = '/' then (r.replaceLast .between '/', rest)
    else if (c = ',' ∨ c = '\x7d') ∧ r.opened.isEmpty = false then
      (r.replaceLast .inside '*', c :: rest)
    else (r.push [.many, .many] '*', c :: rest)

theorem doubleStar_length_le (r : Reading) (text : List Char) :
    (r.doubleStar text).2.length ≤ text.length := by
  unfold doubleStar
  split
  · simp
  · split <;> simp
  · split <;> simp
  · split
    · simp
    · split
      · simp
      · split <;> simp

end Reading

/-- Reads the ranges of a class through its closing bracket, on top of those read, latest first. A
closing bracket or a dash that comes first stands for itself, and so does a dash that comes last.
There is no result if the class is not closed. -/
def readRanges (ranges : List (Char × Char)) (first dash : Bool) :
    List Char → Except GlobError (Option (List (Char × Char) × List Char))
  | [] => .ok none
  | c :: rest =>
    if c = ']' ∧ first = false then
      .ok (some ((if dash then ('-', '-') :: ranges else ranges).reverse, rest))
    else if c = '-' ∧ first = false ∧ dash = false then readRanges ranges false true rest
    else if dash then
      match ranges with
      | (a, _) :: before =>
        if c < a then .error (.invalidRange a c) else readRanges ((a, c) :: before) false false rest
      | [] => readRanges [(c, c)] false false rest
    else readRanges ((c, c) :: ranges) false false rest

theorem readRanges_length_lt {ranges : List (Char × Char)} {first dash : Bool}
    {text rest : List Char} {result : List (Char × Char)}
    (h : readRanges ranges first dash text = .ok (some (result, rest))) :
    rest.length < text.length := by
  induction text generalizing ranges first dash with
  | nil => simp [readRanges] at h
  | cons c text ih =>
    unfold readRanges at h
    split at h
    · simp only [Except.ok.injEq, Option.some.injEq, Prod.mk.injEq] at h
      simp [h.2]
    · split at h
      · exact Nat.lt_succ_of_lt (ih h)
      · split at h
        · split at h
          · split at h
            · cases h
            · exact Nat.lt_succ_of_lt (ih h)
          · exact Nat.lt_succ_of_lt (ih h)
        · exact Nat.lt_succ_of_lt (ih h)

/-- The octets that a range of characters stands for. Only the last octet of its first character and
the first octet of its last one make a range; the others stand for themselves. -/
def octetRanges (range : Char × Char) : List OctetRange :=
  let one (b : UInt8) : OctetRange := ⟨b, b⟩
  let first := Utf8.encode [range.1]
  let last := Utf8.encode [range.2]
  if range.1 = range.2 then first.map one
  else
    match first.getLast?, last with
    | some a, b :: more => first.dropLast.map one ++ ⟨a, b⟩ :: more.map one
    | _, _ => []

/-- The class of some ranges of characters. -/
def classOf (negated : Bool) (ranges : List (Char × Char)) : GlobPart :=
  if negated then .noneOf (ranges.flatMap octetRanges) else .oneOf (ranges.flatMap octetRanges)

/-- Whether a class says which octets do not belong to it. -/
def isNegated (text : List Char) : Bool := text.head? == some '!' || text.head? == some '^'

/-- Reads a class after its opening bracket. -/
def readClass (text : List Char) : Except GlobError (Option (GlobPart × List Char)) :=
  match readRanges [] true false (text.drop (isNegated text).toNat) with
  | .error e => .error e
  | .ok none => .ok none
  | .ok (some (ranges, rest)) => .ok (some (classOf (isNegated text) ranges, rest))

theorem readClass_length_lt {text rest : List Char} {part : GlobPart}
    (h : readClass text = .ok (some (part, rest))) : rest.length < text.length := by
  unfold readClass at h
  split at h
  · cases h
  · cases h
  · rename_i ranges tail hr
    have := readRanges_length_lt hr
    obtain ⟨_, rfl⟩ := Prod.mk.inj (Option.some.inj (Except.ok.inj h))
    simp only [List.length_drop] at this
    omega

/-- Reads on. Where `lenient`, a bracket that no other one closes stands for itself. -/
def readFrom (lenient : Bool) (r : Reading) (text : List Char) : Except GlobError Reading :=
  match text with
  | [] => .ok r
  | '*' :: '*' :: rest => readFrom lenient (r.doubleStar rest).1 (r.doubleStar rest).2
  | c :: rest =>
    match c with
    | '*' => readFrom lenient (r.push [.many] '*') rest
    | '?' => readFrom lenient (r.push [.any] '?') rest
    | '[' =>
      if r.plainBrackets then readFrom lenient (r.push (Reading.literal '[') '[') rest
      else
        match _h : readClass rest with
        | .error e => .error e
        | .ok (some (part, tail)) => readFrom lenient (r.push [part] ']') tail
        | .ok none =>
          if lenient then
            readFrom lenient { r.push (Reading.literal '[') '[' with plainBrackets := true } rest
          else .error .unclosedClass
    | '\x7b' =>
      readFrom lenient { r with opened := ⟨r.parts, []⟩ :: r.opened, parts := [], last := some c } rest
    | '\x7d' =>
      match r.opened with
      | [] => .error .unopenedGroup
      | group :: outer =>
        let closed := GlobPart.ofBranches (r.parts.reverse :: group.branches).reverse
        readFrom lenient { r with opened := outer, parts := closed :: group.before, last := some c } rest
    | ',' =>
      match r.opened with
      | [] => readFrom lenient (r.push (Reading.literal ',') ',') rest
      | group :: outer =>
        let group := { group with branches := r.parts.reverse :: group.branches }
        readFrom lenient { r with opened := group :: outer, parts := [], last := some c } rest
    | '\\' =>
      match rest with
      | [] => .error .finalBackslash
      | d :: rest => readFrom lenient (r.push (Reading.literal d) d) rest
    | c => readFrom lenient (r.push (Reading.literal c) c) rest
termination_by text.length
decreasing_by
  all_goals simp only [List.length_cons]
  all_goals try omega
  · have := Reading.doubleStar_length_le r rest
    omega
  · have := readClass_length_lt _h
    omega

/-- Reads a pattern. -/
def read (lenient : Bool) (text : List Char) : Except GlobError Glob :=
  match readFrom lenient .start text with
  | .error e => .error e
  | .ok r => if r.opened.isEmpty then .ok r.parts.reverse else .error .unclosedGroup

end Glob
end LambdaTally
