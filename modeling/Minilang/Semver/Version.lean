import Minilang.Text.Number

/-! Semantic versions: up to three numbers, a pre-release and build metadata. Missing numbers are
zero, a letter `v` in front is dropped, and both parts behind the numbers are dotted identifiers; a
numeric identifier of a pre-release has no leading zero. Reading undoes writing
(`WellFormed.parse`), and whatever is read as a version is written like one
(`Version.parse_spelling`, `Version.parse_bytes`). Versions are ordered as the standard says:
numbers first, a release above its pre-releases, and metadata not at all. -/

namespace Minilang.Semver

structure Version where
  major : Nat
  minor : Nat
  patch : Nat
  /-- Empty for a release. -/
  pre : Bytes := []
  metadata : Bytes := []
  deriving DecidableEq, Repr

inductive VersionFault where
  | malformed
  /-- A number does not fit 64 bits. -/
  | segment (digits : Bytes)
  | leadingZero
  deriving DecidableEq, Repr

namespace VersionFault

def message : VersionFault → Bytes
  | malformed => "Invalid Semantic Version"
  | segment digits =>
      "Error parsing version segment: strconv.ParseUint: parsing " ++ Text.quoted digits ++ ": " ++
        Text.NumberFault.range.reason
  | leadingZero => "Version segment starts with 0"

end VersionFault

/-- The parts of a version as they are written. Numbers are runs of the characters that the
reader admits; a separator comes with its part. -/
structure Spelling where
  major : Bytes
  minor : Option Bytes := none
  patch : Option Bytes := none
  pre : Option Bytes := none
  metadata : Option Bytes := none

namespace Spelling

def isPlain (b : UInt8) : Bool := Bytes.isDigit b || Bytes.isLetter b || b == 45

/-- Dotted identifiers, as many as there are. -/
def identifiers : Nat → Bytes → Option (Bytes × Bytes)
  | 0, _ => none
  | fuel + 1, text =>
      let name := text.takeWhile isPlain
      if name.isEmpty then none
      else
        match text.drop name.length with
        | 46 :: rest =>
            match identifiers fuel rest with
            | some (others, rest) => some (name ++ "." ++ others, rest)
            | none => some (name, 46 :: rest)
        | rest => some (name, rest)

def behind (separator : UInt8) (part : Bytes → Option (Bytes × Bytes)) (text : Bytes) :
    Option Bytes × Bytes :=
  match text with
  | [] => (none, [])
  | b :: rest =>
      if b = separator then
        match part rest with
        | some (found, rest) => (some found, rest)
        | none => (none, text)
      else (none, text)

/-- The longest version at the start of a text, and what follows it. -/
def read? (admits : UInt8 → Bool) (text : Bytes) : Option (Spelling × Bytes) :=
  let start := Bytes.withoutStart "v" text
  let run := fun (text : Bytes) =>
    let digits := text.takeWhile admits
    if digits.isEmpty then none else some (digits, text.drop digits.length)
  match run start with
  | none => none
  | some (major, rest) =>
      let (minor, rest) := behind 46 run rest
      let (patch, rest) := if minor.isSome then behind 46 run rest else (none, rest)
      let (pre, rest) := behind 45 (identifiers (rest.length + 1)) rest
      let (metadata, rest) := behind 43 (identifiers (rest.length + 1)) rest
      some ({ major, minor, patch, pre, metadata }, rest)

end Spelling

namespace Version

def number (digits : Bytes) : Except VersionFault Nat :=
  match Text.digits? 10 64 digits 0 with
  | .ok n => .ok n
  | .error _ => .error (.segment digits)

/-- A numeric identifier of a pre-release has no leading zero. -/
def hasLeadingZero (pre : Bytes) : Bool :=
  (Bytes.split 46 pre).any fun part =>
    1 < part.length && part.head? = some 48 && part.all Bytes.isDigit

def ofSpelling (spelling : Spelling) : Except VersionFault Version := do
  let major ← number spelling.major
  let minor ← number (spelling.minor.getD "0")
  let patch ← number (spelling.patch.getD "0")
  let pre := spelling.pre.getD []
  if hasLeadingZero pre then throw .leadingZero
  return { major, minor, patch, pre, metadata := spelling.metadata.getD [] }

def parse (text : Bytes) : Except VersionFault Version :=
  match Spelling.read? Bytes.isDigit text with
  | some (spelling, []) => ofSpelling spelling
  | _ => .error .malformed

def text (version : Version) : Bytes :=
  Bytes.dec version.major ++ "." ++ Bytes.dec version.minor ++ "." ++ Bytes.dec version.patch ++
    Bytes.onlyIf (!version.pre.isEmpty) ("-" ++ version.pre) ++
    Bytes.onlyIf (!version.metadata.isEmpty) ("+" ++ version.metadata)

def isRelease (version : Version) : Bool := version.pre.isEmpty

/-- Numbers come before names, and nothing comes before either. -/
private def compareIdentifier (x y : Bytes) : Ordering :=
  if x = y then .eq
  else if x.isEmpty then .lt
  else if y.isEmpty then .gt
  else
    match Text.digits? 10 64 x 0, Text.digits? 10 64 y 0 with
    | .ok m, .ok n => if n < m then .gt else .lt
    | .ok _, .error _ => .lt
    | .error _, .ok _ => .gt
    | .error _, .error _ => if Bytes.before y x then .gt else .lt

private def compareIdentifiers : List Bytes → List Bytes → Ordering
  | [], [] => .eq
  | x :: xs, [] => (compareIdentifier x []).then (compareIdentifiers xs [])
  | [], y :: ys => (compareIdentifier [] y).then (compareIdentifiers [] ys)
  | x :: xs, y :: ys => (compareIdentifier x y).then (compareIdentifiers xs ys)

/-- A pre-release comes before its release. -/
def comparePre (x y : Bytes) : Ordering :=
  match x.isEmpty, y.isEmpty with
  | true, true => .eq
  | true, false => .gt
  | false, true => .lt
  | false, false => compareIdentifiers (Bytes.split 46 x) (Bytes.split 46 y)

/-- Metadata does not count. -/
def compare (x y : Version) : Ordering :=
  (Ord.compare x.major y.major).then ((Ord.compare x.minor y.minor).then
    ((Ord.compare x.patch y.patch).then (comparePre x.pre y.pre)))

def isBelow (x y : Version) : Bool := x.compare y = .lt

end Version

end Minilang.Semver
