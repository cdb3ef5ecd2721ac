import Minilang.Files
import Minilang.Ir.Basic
import Minilang.Semver.Constraint
import Minilang.Target
import Minilang.Text.Blank
import Minilang.Toml.Document

/-! The manifest of a project: its name, the compiler versions it accepts, and how it is built.
It marks the root of the project, so that a directory belongs to the nearest one above it. -/

namespace Minilang.Project

/-- The extension of source files. -/
def sourceExtension : Bytes := ".mini"

/-- The file that marks the root of a project. -/
def manifestName : Bytes := "minicomp.toml"

/-- What a manifest says; empty fields were left out. -/
structure Settings where
  name : Bytes := []
  toolchain : Bytes := []
  target : Bytes := []
  sources : List Bytes := []
  dialect : Bytes := []
  className : Bytes := []
  jobs : Int := 0
  deriving Repr

structure Manifest where
  path : Bytes
  root : Bytes
  settings : Settings
  deriving Repr

/-- Why a manifest is refused. -/
inductive ManifestFault where
  | unreadable (reason : Bytes)
  | missingPackage
  | missingName
  | unknownKey (key : Toml.Key)
  | target (reason : Bytes)
  | dialect (reason : Bytes)
  | negativeJobs
  | notSource (name : Bytes)
  | toolchain (fault : Semver.ConstraintFault)

namespace ManifestFault

def message (path : Bytes) (fault : ManifestFault) : Bytes :=
  path ++ ": " ++ match fault with
    | unreadable reason => "failed to parse TOML: " ++ reason
    | missingPackage => "missing [package]"
    | missingName => "missing [package].name"
    | unknownKey key => "unknown key " ++ key.text
    | target reason => "[build].target: " ++ reason
    | dialect reason => "[build].ir_dialect: " ++ reason
    | negativeJobs => "[build].jobs must not be negative"
    | notSource name => "[build].sources: " ++ name ++ " is not a " ++ sourceExtension ++ " file"
    | toolchain fault => "[package].toolchain: " ++ fault.message

/-- Whether the file does not even hold settings. -/
def isUnreadable : ManifestFault → Bool
  | unreadable _ => true
  | _ => false

end ManifestFault

/-- The letters that have no other lower case than themselves but fold with one of ASCII. -/
def foldedCode (code : Nat) : Nat :=
  if 65 ≤ code && code ≤ 90 then code + 32
  else if code = 0x17F then 115
  else if code = 0x212A then 107
  else code

def isSetting (setting name : Bytes) : Bool :=
  (Utf8.codes name).map foldedCode == Utf8.codes setting

def packageSettings : List Bytes := ["name", "toolchain"]

def buildSettings : List Bytes :=
  ["target", "sources", "ir_dialect", "class_name", "jobs"]

/-- Whether a key is one that settings are read from. -/
def isKnown : Toml.Key → Bool
  | [table] => isSetting "package" table || isSetting "build" table
  | [table, name] =>
      (isSetting "package" table && packageSettings.any (isSetting · name)) ||
        (isSetting "build" table && buildSettings.any (isSetting · name))
  | _ => false

def text? : Toml.Node → Option Bytes
  | .value (.text content) => some content
  | _ => none

def texts? : Toml.Node → Option (List Bytes)
  | .value (.array items) => items.mapM fun item => text? (.value item)
  | .tables [] => some []
  | _ => none

private def integer? : Toml.Node → Option Int
  | .value (.integer n) => some n
  | _ => none

def packageField (settings : Settings) (field : Bytes × Toml.Node) : Option Settings :=
  let (name, node) := field
  if isSetting "name" name then (text? node).map ({ settings with name := · })
  else if isSetting "toolchain" name then (text? node).map ({ settings with toolchain := · })
  else some settings

def buildField (settings : Settings) (field : Bytes × Toml.Node) : Option Settings :=
  let (name, node) := field
  if isSetting "target" name then (text? node).map ({ settings with target := · })
  else if isSetting "sources" name then (texts? node).map ({ settings with sources := · })
  else if isSetting "ir_dialect" name then (text? node).map ({ settings with dialect := · })
  else if isSetting "class_name" name then (text? node).map ({ settings with className := · })
  else if isSetting "jobs" name then (integer? node).map ({ settings with jobs := · })
  else some settings

def rootField (settings : Settings) (field : Bytes × Toml.Node) : Option Settings :=
  let (name, node) := field
  let fold := fun (f : Settings → Bytes × Toml.Node → Option Settings) =>
    match node with
    | .table fields => fields.foldlM f settings
    | _ => none
  if isSetting "package" name then fold packageField
  else if isSetting "build" name then fold buildField
  else some settings

/-- The settings of a document; a value of the wrong kind is refused. -/
def settings? (document : Toml.Document) : Option Settings :=
  document.root.foldlM rootField {}

def check (failed : Bool) (fault : ManifestFault) : Except ManifestFault Unit :=
  if failed then .error fault else .ok ()

def reasonOf {α : Type} (fault : Bytes → ManifestFault) :
    Except Bytes α → Except ManifestFault Unit
  | .ok _ => .ok ()
  | .error reason => .error (fault reason)

/-- Whether the settings make sense. -/
def Settings.validate (settings : Settings) : Except ManifestFault Unit := do
  if !settings.target.isEmpty then reasonOf .target (Target.parse settings.target)
  if !settings.dialect.isEmpty then reasonOf .dialect (Ir.Dialect.parse settings.dialect)
  check (settings.jobs < 0) .negativeJobs
  match settings.sources.find? fun name => Path.ext name != sourceExtension with
  | some name => throw (.notSource name)
  | none => pure ()
  let condition := Text.trim settings.toolchain
  if !condition.isEmpty then
    match Semver.Constraint.parse condition with
    | .ok _ => pure ()
    | .error fault => throw (.toolchain fault)

/-- Reads the text of a manifest. -/
def Settings.parse (text : Bytes) : Except ManifestFault Settings := do
  match Toml.Document.read? text with
  | none => throw (.unreadable "syntax error")
  | some document =>
      match settings? document with
      | none => throw (.unreadable "incompatible types")
      | some settings =>
          let package := document.root.lookup ("package" : Bytes)
          check package.isNone .missingPackage
          let named := match package with
            | some (.table fields) => (fields.lookup ("name" : Bytes)).isSome
            | _ => false
          check (!named || (Text.trim settings.name).isEmpty) .missingName
          match document.keys.find? (!isKnown ·) with
          | some key => throw (.unknownKey key)
          | none => settings.validate
          return settings

namespace Manifest

/-- Loads the manifest at a path. -/
def load (files : Files) (path : Bytes) : Except ManifestFault Manifest :=
  match files.read path with
  | .error fault => .error (.unreadable fault.message)
  | .ok text => (Settings.parse text).map fun settings =>
      { path, root := Path.dir path, settings }

/-- The target built for when nothing else is said. -/
def target (manifest : Manifest) : Target :=
  (Target.parse manifest.settings.target).toOption.getD .llvm

def dialect (manifest : Manifest) : Ir.Dialect :=
  (Ir.Dialect.parse manifest.settings.dialect).toOption.getD .opaquePointers

/-- The source files: those listed, or every source file in the root. -/
def sources (manifest : Manifest) (files : Files) : Except Bytes (List Bytes) :=
  let listed := manifest.settings.sources
  if listed.isEmpty then
    match (files.list manifest.root).filter (·.endsWith sourceExtension) with
    | [] => .error (manifest.path ++ ": no " ++ sourceExtension ++ " files in " ++ manifest.root)
    | found => .ok (found.map fun name => Path.join [manifest.root, name])
  else
    listed.mapM fun source =>
      let path := Path.join [manifest.root, source]
      match files.stat path with
      | .ok _ => .ok path
      | .error fault => .error (manifest.path ++ ": [build].sources: " ++ fault.message)

end Manifest

/-- Why a compiler is not the right one for a project. -/
inductive ToolchainFault where
  | constraint (path : Bytes) (fault : Semver.ConstraintFault)
  | version (text : Bytes) (fault : Semver.VersionFault)
  | mismatch (path condition : Bytes) (version : Semver.Version)

namespace ToolchainFault

def message : ToolchainFault → Bytes
  | constraint path fault => path ++ ": [package].toolchain: " ++ fault.message
  | .version text fault => "compiler version " ++ Text.quoted text ++ ": " ++ fault.message
  | mismatch path condition running =>
      "toolchain version mismatch: " ++ path ++ " requires " ++ condition ++ ", running " ++
        running.text

def isMismatch : ToolchainFault → Bool
  | mismatch .. => true
  | _ => false

end ToolchainFault

/-- Whether a compiler version meets the project's condition; no condition accepts all. -/
def Manifest.checkToolchain (manifest : Manifest) (compiler : Bytes) :
    Except ToolchainFault Unit :=
  let condition := Text.trim manifest.settings.toolchain
  if condition.isEmpty then .ok ()
  else
    match Semver.Constraint.parse condition with
    | .error fault => .error (.constraint manifest.path fault)
    | .ok constraint =>
        match Semver.Version.parse compiler with
        | .error fault => .error (.version compiler fault)
        | .ok version =>
            if constraint.holds version then .ok ()
            else .error (.mismatch manifest.path condition version)

/-- The directory and those above it, up to the root. -/
def ancestors : Nat → Bytes → List Bytes
  | 0, _ => []
  | fuel + 1, dir =>
      let above := Path.dir dir
      dir :: if above = dir then [] else ancestors fuel above

private def findIn (files : Files) : List Bytes → Except Bytes (Option Bytes)
  | [] => .ok none
  | dir :: rest =>
      let candidate := Path.join [dir, manifestName]
      match files.stat candidate with
      | .ok (.file _) => .ok (some candidate)
      | .ok .directory => findIn files rest
      | .error fault =>
          if fault.isNotFound then findIn files rest
          else .error ("stat " ++ Text.quoted candidate ++ ": " ++ fault.message)

/-- The manifest in a directory or the nearest above it. -/
def findManifest (files : Files) (start : Bytes) : Except Bytes (Option Bytes) :=
  let start : Bytes := if start.isEmpty then "." else start
  let dir := Path.absolute files.workingDir start
  findIn files (ancestors (dir.length + 1) dir)

/-- The root of the project a directory belongs to. -/
def findRoot (files : Files) (start : Bytes) : Except Bytes (Option Bytes) :=
  (findManifest files start).map fun found => found.map Path.dir

/-- Finds and loads the manifest above a directory. -/
def findAndLoad (files : Files) (start : Bytes) : Except Bytes (Option Manifest) := do
  match ← findManifest files start with
  | none => return none
  | some path =>
      match Manifest.load files path with
      | .ok manifest => return some manifest
      | .error fault => throw (fault.message path)

end Minilang.Project
