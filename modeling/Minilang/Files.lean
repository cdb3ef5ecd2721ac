import Minilang.Path

/-! A tree of files and directories as a value, with the answers a system gives when an
operation cannot be done. -/

namespace Minilang

/-- The names from the root down. -/
abbrev Location := List Bytes

inductive Entry where
  | file (content : Bytes)
  | directory
  deriving DecidableEq, Repr

/-- Why an operation is refused. -/
inductive Refusal where
  | notFound
  | notDirectory
  | isDirectory
  | alreadyThere
  | nameTooLong
  | invalidPath
  deriving DecidableEq, Repr

namespace Refusal

def message : Refusal → Bytes
  | notFound => "no such file or directory"
  | notDirectory => "not a directory"
  | isDirectory => "is a directory"
  | alreadyThere => "file exists"
  | nameTooLong => "file name too long"
  | invalidPath => "invalid argument"

end Refusal

/-- A refused operation. -/
structure FileFault where
  action : Bytes
  paths : List Bytes
  refusal : Refusal
  deriving DecidableEq, Repr

namespace FileFault

def message (fault : FileFault) : Bytes :=
  Bytes.join " " (fault.action :: fault.paths) ++ ": " ++ fault.refusal.message

def isNotFound (fault : FileFault) : Bool := fault.refusal = .notFound

end FileFault

/-- Everything there is below a root directory, and where relative paths start. -/
structure Files where
  workingDir : Bytes := "/"
  /-- One entry for each location other than the root. -/
  entries : List (Location × Entry) := []
  deriving Repr

namespace Files

/-- What is at a location; the root is a directory. -/
def entry? (files : Files) : Location → Option Entry
  | [] => some .directory
  | location => files.entries.lookup location

def isDirectory (files : Files) (location : Location) : Bool :=
  files.entry? location = some .directory

/-- Puts an entry at a location, in place of what was there. -/
def set (files : Files) (location : Location) (entry : Entry) : Files :=
  if (files.entries.lookup location).isSome then
    { files with
      entries := files.entries.map fun (at_, old) =>
        (at_, if at_ = location then entry else old) }
  else { files with entries := files.entries ++ [(location, entry)] }

/-- Takes a location away with all below it. -/
def erase (files : Files) (location : Location) : Files :=
  { files with entries := files.entries.filter fun (at_, _) => !location.isPrefixOf at_ }

/-- The longest name of an entry. -/
def maxName : Nat := 255

def walk (files : Files) : Location → List Bytes → Except Refusal Location
  | here, [] => .ok here
  | here, part :: rest =>
      match files.entry? here with
      | none => .error .notFound
      | some (.file _) => .error .notDirectory
      | some .directory =>
          if part = [] || part = "." then walk files here rest
          else if part = ".." then walk files here.dropLast rest
          else if maxName < part.length then .error .nameTooLong
          else walk files (here ++ [part]) rest

/-- The location a path leads to. Everything on the way is there; the last name may not be. -/
def locate (files : Files) (path : Bytes) : Except Refusal Location :=
  if path.isEmpty then .error .notFound
  else if path.contains 0 then .error .invalidPath
  else
    let start := if Path.isAbsolute path then [] else Path.components files.workingDir
    walk files start (Bytes.split 47 path)

def refuse {α : Type} (action path : Bytes) (refusal : Refusal) : Except FileFault α :=
  .error ⟨action, [path], refusal⟩

def withAction {α : Type} (action path : Bytes) : Except Refusal α → Except FileFault α
  | .ok value => .ok value
  | .error refusal => refuse action path refusal

/-- What is at a path. -/
def stat (files : Files) (path : Bytes) : Except FileFault Entry := do
  let location ← withAction "stat" path (files.locate path)
  match files.entry? location with
  | some entry => .ok entry
  | none => refuse "stat" path .notFound

def read (files : Files) (path : Bytes) : Except FileFault Bytes := do
  let location ← withAction "open" path (files.locate path)
  match files.entry? location with
  | some (.file content) => .ok content
  | some .directory => refuse "read" path .isDirectory
  | none => refuse "open" path .notFound

/-- Creates or replaces a file. -/
def write (files : Files) (path content : Bytes) : Except FileFault Files := do
  let location ← withAction "open" path (files.locate path)
  if files.isDirectory location then refuse "open" path .isDirectory
  else .ok (files.set location (.file content))

/-- Adds to the end of a file, which is created when it is missing. -/
def append (files : Files) (path content : Bytes) : Except FileFault Files :=
  match files.read path with
  | .ok old => files.write path (old ++ content)
  | .error _ => files.write path content

/-- A new directory may be named with slashes behind it. -/
def mkdir (files : Files) (path : Bytes) : Except FileFault Files := do
  let bare := (path.reverse.dropWhile (· == 47)).reverse
  let location ← withAction "mkdir" path (files.locate (if bare.isEmpty then path else bare))
  match files.entry? location with
  | some .directory => .ok files
  | some (.file _) => refuse "mkdir" path .alreadyThere
  | none => .ok (files.set location .directory)

def parentPath (path : Bytes) : Bytes :=
  let rest := (path.reverse.dropWhile (· == 47)).dropWhile (· != 47)
  (rest.drop 1).reverse

def mkdirAllLoop : Nat → Files → Bytes → Except FileFault Files
  | 0, files, _ => .ok files
  | fuel + 1, files, path =>
      match files.stat path with
      | .ok .directory => .ok files
      | .ok (.file _) => refuse "mkdir" path .notDirectory
      | .error _ => do
          let parent := parentPath path
          let files ← if parent.isEmpty then .ok files else mkdirAllLoop fuel files parent
          mkdir files path

/-- Makes a directory and those above it that are missing. -/
def mkdirAll (files : Files) (path : Bytes) : Except FileFault Files :=
  mkdirAllLoop (path.length + 1) files path

/-- Gives what is at one path another path. A file takes the place of a file there; a directory
there is never replaced. -/
def rename (files : Files) (source target : Bytes) : Except FileFault Files :=
  let refuse := fun refusal =>
    (.error ⟨"rename", [source, target], refusal⟩ : Except FileFault Files)
  match files.locate source with
  | .error refusal => refuse refusal
  | .ok start =>
      match files.entry? start with
      | none => refuse .notFound
      | some entry =>
          match files.locate target with
          | .error refusal => refuse refusal
          | .ok goal =>
              match files.entry? goal, entry with
              | some .directory, _ => refuse .alreadyThere
              | some (.file _), .directory => refuse .notDirectory
              | _, _ =>
                  let cleared := if goal = start then files else files.erase goal
                  .ok { cleared with
                    entries := cleared.entries.map fun (at_, old) =>
                      (if start.isPrefixOf at_ then goal ++ at_.drop start.length else at_, old) }

/-- Removes what is at a path, if anything is, with all below it. -/
def removeAll (files : Files) (path : Bytes) : Files :=
  match files.locate path with
  | .ok location => files.erase location
  | .error _ => files

/-- The names in a directory, in order. -/
def names (files : Files) (location : Location) : List Bytes :=
  (files.entries.filterMap fun (at_, _) =>
    if at_.dropLast = location then at_.getLast? else none).mergeSort fun x y => !Bytes.before y x

/-- The names in the directory at a path; there are none when it cannot be listed. -/
def list (files : Files) (path : Bytes) : List Bytes :=
  match files.locate path with
  | .ok location => if files.isDirectory location then files.names location else []
  | .error _ => []

/-- Adds files and the directories above them; a path that ends in a slash is a directory. What
cannot be added is left out. -/
def addAll (files : Files) (given : List (Bytes × Bytes)) : Files :=
  let make := fun (files : Files) path => (files.mkdirAll path).toOption.getD files
  given.foldl (fun files (path, content) =>
    if path.endsWith "/" then make files path
    else ((make files (Path.dir path)).write path content).toOption.getD files) files

/-- The files below a directory that are new or have other content, by their paths from there. -/
def changedBelow (before after : Files) (dir : Bytes) : List (Bytes × Bytes) :=
  let start := Path.components dir
  after.entries.filterMap fun (at_, entry) =>
    match entry with
    | .file content =>
        if start.isPrefixOf at_ && before.entry? at_ != some entry then
          some (Bytes.join "/" (at_.drop start.length), content)
        else none
    | .directory => none

end Files

end Minilang
