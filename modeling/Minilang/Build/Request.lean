import Minilang.Cache.Store
import Minilang.Text.Blank

/-! What a build is asked for, how its files are called in reports and where its artefacts go: a job
for each file, with an output below the output tree that no other job of the build has. -/

namespace Minilang.Build

structure Request where
  files : List Bytes
  /-- Reports name files relative to this directory. -/
  base : Bytes := []
  options : CompileOptions := { target := some .llvm }
  outputRoot : Bytes := []
  profile : Bytes := []
  /-- Whether executables are made. -/
  link : Bool := false
  /-- Whether the commands of external tools are shown. -/
  printCommands : Bool := false
  store : Option Cache.Store := none
  /-- Where tools are searched. -/
  searchPath : List Bytes := []
  /-- Why nothing can be written to the output of the build. -/
  outputFault : Option Bytes := none
  /-- The build is interrupted once it has made so many reports. -/
  interruptAfter : Option Nat := none

/-- The work on one file. -/
structure Job where
  path : Bytes := []
  /-- What reports call the file. -/
  name : Bytes := []
  output : Bytes := []
  deriving DecidableEq, Repr

/-- The name of a file without directory and extension. -/
def stem (file : Bytes) : Bytes := Bytes.withoutEnd (Path.ext file) (Path.base file)

/-- Whether a relative path stays below its start. -/
private def isLocal (path : Bytes) : Bool :=
  !path.isEmpty && !Path.isAbsolute path && (Path.components path).head? != some ".."

/-- A file's name relative to the base directory when it lies below it. -/
def displayName (workingDir base file : Bytes) : Bytes :=
  let path := Path.clean file
  let base := Text.trim base
  if base.isEmpty then path
  else
    match Path.relative? (Path.absolute workingDir base) (Path.absolute workingDir path) with
    | some relative => if relative != "." && isLocal relative then relative else path
    | none => path

/-- One entry for each of equal neighbours. -/
def distinctNeighbours : List Bytes → List Bytes
  | x :: y :: rest =>
      if x = y then distinctNeighbours (y :: rest) else x :: distinctNeighbours (y :: rest)
  | short => short

/-- The names that a build of the files reports, in order and without repeats. -/
def displayNames (workingDir base : Bytes) (files : List Bytes) : List Bytes :=
  distinctNeighbours
    (((files.filter (!·.isEmpty)).map (displayName workingDir base)).mergeSort
      fun x y => !Bytes.before y x)

namespace Request

/-- The directory below which all artefacts go. -/
def outputDir (request : Request) : Bytes :=
  let root : Bytes := if request.outputRoot.isEmpty then "target" else request.outputRoot
  let profile : Bytes := if request.profile.isEmpty then "debug" else request.profile
  Path.join [root, profile]

/-- The artefact of a stem: text beside the others, a class in a directory of its own. -/
def outputPath (request : Request) (stem : Bytes) : Bytes :=
  if request.options.target = some .jvm then
    Path.join [request.outputDir, stem,
      ClassFile.generatedName request.options.className ++ Target.jvm.extension]
  else Path.join [request.outputDir, stem ++ Target.llvm.extension]

def job (request : Request) (workingDir file : Bytes) : Job :=
  { path := file, name := displayName workingDir request.base file
    output := request.outputPath (stem file) }

/-- Two files that would have the same output. -/
structure Clash where
  first : Bytes
  second : Bytes
  deriving DecidableEq, Repr

def planLoop (request : Request) (workingDir : Bytes) :
    List Bytes → List (Bytes × Bytes) → List Job → List Job × Option Clash
  | [], _, done => (done.reverse, none)
  | file :: rest, seen, done =>
      match seen.lookup (stem file) with
      | some first => (done.reverse, some { first, second := file })
      | none =>
          planLoop request workingDir rest ((stem file, file) :: seen)
            (request.job workingDir file :: done)

/-- The jobs of a build in the order of its files, up to the first whose stem was there before. -/
def plan (request : Request) (workingDir : Bytes) : List Job × Option Clash :=
  planLoop request workingDir request.files [] []

end Request

end Minilang.Build
