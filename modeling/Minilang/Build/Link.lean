import Minilang.Build.Site
import Minilang.Script.Run
import Minilang.Text.Blank

/-! Linking, by external tools: clang makes an executable of the code directly; where it refuses, llc
makes an object of the code and clang an executable of the object. -/

namespace Minilang.Build

/-- A command of one tool. -/
structure ToolCommand where
  tool : Bytes
  arguments : List Bytes
  deriving DecidableEq, Repr

/-- What a finished command left. -/
structure ToolRun where
  files : Files
  out : Bytes
  err : Bytes
  status : Nat

/-- The file of a tool in the first directory that has it. -/
def findTool (files : Files) (searchPath : List Bytes) (name : Bytes) : Option Bytes :=
  (searchPath.map fun dir => Path.join [dir, name]).find? fun path =>
    match files.stat path with
    | .ok (.file _) => true
    | _ => false

/-- Runs a command; nothing when its file is not a program. Tools are scripts. -/
def ToolCommand.run? (command : ToolCommand) (files : Files) : Option ToolRun :=
  match files.read command.tool with
  | .error _ => none
  | .ok script =>
      if script.startsWith "#!" then
        let shell := Script.run command.tool script command.arguments files
        some { files := shell.files, out := shell.out, err := shell.err, status := shell.status }
      else none

/-- The tools that linking needs. -/
structure Toolchain where
  clang : Bytes
  llc : Option Bytes
  deriving DecidableEq, Repr

def Toolchain.find? (files : Files) (searchPath : List Bytes) : Option Toolchain := do
  let clang ← findTool files searchPath "clang"
  return { clang, llc := findTool files searchPath "llc" }

inductive LinkFault where
  /-- A command failed and said why. -/
  | said (tool text : Bytes)
  | status (number : Nat)
  | notProgram (tool : Bytes)
  | interrupted
  | unprinted (reason : Bytes)
  | unwritten (reason : Bytes)
  /-- Clang failed and there is no llc. -/
  | noFallback (fault : LinkFault)
  | fallback (fault : LinkFault)
  deriving Repr

namespace LinkFault

def message : LinkFault → Bytes
  | said tool text => tool ++ ": " ++ text
  | status number => "exit status " ++ Bytes.dec number
  | notProgram tool => "fork/exec " ++ tool ++ ": exec format error"
  | interrupted => "context canceled"
  | unprinted reason => "print command: " ++ reason
  | unwritten reason => reason
  | noFallback fault => fault.message ++ " (llc not found for fallback)"
  | fallback fault => "clang and llc failed: " ++ fault.message

def isInterruption : LinkFault → Bool
  | interrupted => true
  | noFallback fault | fallback fault => fault.isInterruption
  | _ => false

end LinkFault

/-- The executable of an output. -/
def executablePath (output : Bytes) : Bytes := Bytes.withoutEnd (Path.ext output) output

/-- The object that an executable may be linked from; the ending `.exe` gives way. -/
def objectPath (executable : Bytes) : Bytes := Bytes.withoutEnd ".exe" executable ++ ".o"

/-- Work on a site that may fail; what was done before stays done. -/
abbrev Linking := ExceptT LinkFault (StateM Site)

namespace Linking

/-- Text for the output of the build, and why it could not be written. -/
def put (request : Request) (text : Bytes) : StateM Site (Option Bytes) := do
  if text.isEmpty then return none
  match request.outputFault with
  | some reason => return some reason
  | none =>
      modify (·.report (.output text))
      return none

/-- Runs a tool, whose output goes to that of the build. -/
def command (request : Request) (command : ToolCommand) : Linking Unit := do
  if request.printCommands then
    let line := command.tool ++ " " ++ Bytes.join " " command.arguments ++ "\n"
    if let some reason ← put request line then throw (.unprinted reason)
  let site ← get
  if request.isInterrupted site then throw .interrupted
  match command.run? site.files with
  | none => throw (.notProgram command.tool)
  | some run =>
      set { site with files := run.files }
      let unwritten ← put request run.out
      let complaint := Text.trim run.err
      let fault : Option LinkFault :=
        if run.status ≠ 0 then some (.status run.status) else unwritten.map .unwritten
      match fault with
      | none => return ()
      | some fault =>
          throw (if complaint.isEmpty then fault else .said command.tool complaint)

/-- The machine that clang makes code for, if it tells. -/
def machine (request : Request) (clang : Bytes) : StateM Site (Option Bytes) := do
  let site ← get
  if request.isInterrupted site then return none
  match ToolCommand.run? { tool := clang, arguments := ["-dumpmachine"] } site.files with
  | none => return none
  | some run =>
      set { site with files := run.files }
      return if run.status = 0 then some (Text.trim run.out) else none

/-- Makes an executable of code. -/
def link (request : Request) (tools : Toolchain) (code executable : Bytes) : Linking Unit := do
  let direct : ToolCommand :=
    { tool := tools.clang, arguments := ["-Wno-override-module", code, "-o", executable] }
  tryCatch (command request direct) fun first => do
    match tools.llc with
    | none => throw (.noFallback first)
    | some llc =>
        let object := objectPath executable
        let triple ← machine request tools.clang
        let triple := triple.map fun (name : Bytes) => ("-mtriple=" ++ name : Bytes)
        let last : List Bytes := ["-filetype=obj", code, "-o", object]
        let arguments := triple.toList ++ last
        tryCatch (command request { tool := llc, arguments }) fun fault => throw (.fallback fault)
        if request.printCommands then
          discard (put request "note: clang IR compile failed; fell back to llc\n")
        command request { tool := tools.clang, arguments := [object, "-o", executable] }

end Linking

end Minilang.Build
