import Minilang.Project.Manifest

/-! New projects: a manifest and a first program. -/

namespace Minilang.Project

def manifestText (name toolchain : Bytes) : Bytes :=
  "[package]\nname = " ++ Text.quoted name ++ "\ntoolchain = \">=" ++ toolchain ++
    "\"\n\n[build]\ntarget = \"llvm\"\nsources = [\"main.mini\"]\n"

def mainText : Bytes :=
  "read n;\ni = 1;\nwhile i <= n \x7b\n    print i;\n    i = i + 1;\n\x7d\n"

/-- Why no project was made. -/
inductive ScaffoldFault where
  | directory (dir : Bytes) (fault : FileFault)
  | alreadyThere (path : Bytes)
  | look (fault : FileFault)
  | write (path : Bytes) (fault : FileFault)

def ScaffoldFault.message : ScaffoldFault → Bytes
  | directory dir fault => "failed to create " ++ dir ++ ": " ++ fault.message
  | alreadyThere path => path ++ " already exists"
  | look fault => fault.message
  | write path fault => "failed to write " ++ path ++ ": " ++ fault.message

/-- Nothing may be at a path yet. -/
def mustBeMissing (files : Files) (path : Bytes) : Except ScaffoldFault Unit :=
  match files.stat path with
  | .ok _ => .error (.alreadyThere path)
  | .error fault => if fault.isNotFound then .ok () else .error (.look fault)

/-- Makes a project in a directory and returns the paths of its files. A blank name stands for
that of the directory, and no file is overwritten. What was done before a fault stays done. -/
def scaffold (files : Files) (dir name toolchain : Bytes) :
    Except ScaffoldFault (List Bytes) × Files :=
  let name := if (Text.trim name).isEmpty then Path.base dir else name
  match files.mkdirAll dir with
  | .error fault => (.error (.directory dir fault), files)
  | .ok files =>
      let manifestPath := Path.join [dir, manifestName]
      let mainPath := Path.join [dir, "main" ++ sourceExtension]
      match mustBeMissing files manifestPath, mustBeMissing files mainPath with
      | .error fault, _ | .ok _, .error fault => (.error fault, files)
      | .ok _, .ok _ =>
          match files.write manifestPath (manifestText name toolchain) with
          | .error fault => (.error (.write manifestPath fault), files)
          | .ok files =>
              match files.write mainPath mainText with
              | .error fault => (.error (.write mainPath fault), files)
              | .ok files => (.ok [manifestPath, mainPath], files)

end Minilang.Project
