import Minilang.Command.Compile
import Minilang.Project.Manifest
import Minilang.Project.Scaffold
import Minilang.Text.Json

/-! The commands around a project: making one, cleaning up, and telling the version. -/

namespace Minilang.Command

def runInit (settings : Settings) (given : Given) (arguments : List Bytes) : Action Unit := do
  let session ← get
  let dir := Path.absolute session.files.workingDir (arguments.headD ".")
  let name := given.text CommandName.init.flags "name"
  let (made, files) := Project.scaffold session.files dir name session.version.number
  set { session with files }
  match made with
  | .error fault =>
      let hasManifest := (files.stat (Path.join [dir, Project.manifestName])).toOption.isSome
      throw (if hasManifest then .usage fault.message else .io fault.message)
  | .ok paths =>
      for path in paths do
        Session.status settings ("created " ++ (Path.relative? dir path).getD path)
      if !settings.quiet then
        discard (Session.say ("initialized project in " ++ dir ++ "\n") : StateM Session _)

/-- The root of the project around a path, or the directory of the path. -/
def cleanBase (files : Files) (start : Bytes) : Except Bytes Bytes := do
  let entry ← match files.stat start with
    | .ok entry => pure entry
    | .error fault => throw fault.message
  let dir := if entry = .directory then start else Path.dir start
  match ← Project.findRoot files dir with
  | some root => return root
  | none => return Path.absolute files.workingDir dir

private def removeTarget (settings : Settings) (dir : Bytes) : Action Unit := do
  let session ← get
  match session.files.stat dir with
  | .ok .directory =>
      set { session with files := session.files.removeAll dir }
      Session.status settings ("removed " ++ dir)
  | .ok (.file _) => throw (.usage (Text.quoted dir ++ " is not a directory"))
  | .error fault =>
      if fault.isNotFound then Session.status settings "target directory not found"
      else throw (.io fault.message)

private def clearStore (settings : Settings) : Action Unit := do
  let session ← get
  match Cache.Store.openUser session.surroundings session.files with
  | .error reason => throw (.io ("clear cache: " ++ reason))
  | .ok (store, files) =>
      match store.dropAll files with
      | .error fault => throw (.io ("clear cache: " ++ fault.message))
      | .ok files =>
          set { session with files }
          Session.status settings ("cleared cache " ++ store.dir)

def runClean (settings : Settings) (given : Given) (arguments : List Bytes) : Action Unit := do
  let named := arguments.headD []
  let start : Bytes := if named.isEmpty then "." else named
  match cleanBase (← get).files start with
  | .error reason => throw (.io reason)
  | .ok base =>
      removeTarget settings (Path.join [base, "target"])
      if given.switch CommandName.clean.flags "cache" then clearStore settings

/-- The version as a document. -/
def versionDocument (version : Version) : Bytes :=
  let optional := fun (name : Bytes) (value : Bytes) =>
    Json.memberIf (!value.isEmpty) name (.text value)
  Json.document (.fields ([Json.member "tool" (.text programName),
      Json.member "version" (.text version.number)]
    ++ optional "git_commit" version.commit ++ optional "git_message" version.commitMessage
    ++ optional "build_date" version.date))

def runVersion (settings : Settings) (given : Given) : Action Unit := do
  let format := given.text CommandName.version.flags "output"
  let version := (← get).version
  let lower := Text.lower format
  let text ←
    if lower = "json" then pure (versionDocument version)
    else if lower = "pretty" || lower.isEmpty then pure (version.summary settings.color)
    else throw (.usage ("unknown format " ++ Text.quoted format ++ " (expected pretty|json)"))
  match ← (Session.say text : StateM Session _) with
  | some reason => throw (.usage reason)
  | none => return ()

end Minilang.Command
