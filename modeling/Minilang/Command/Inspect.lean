import Minilang.Command.Compile
import Minilang.Token.Listing
import Minilang.Tree.Outline

/-! The commands that show what the compiler sees: tokens, the tree, diagnostics. -/

namespace Minilang.Command

/-- Writes a document to the output. -/
private def publish (text : Bytes) : Action Unit := do
  match ← (Session.say text : StateM Session _) with
  | some reason => throw (.io reason)
  | none => return ()

/-- Shows diagnostics and fails when there are errors among them. -/
private def conclude (write : Bytes → StateM Session (Option Bytes)) (settings : Settings)
    (bag : Bag) (sources : SourceSet) : Action Unit := do
  Session.showBag write settings bag sources
  if bag.hasErrors then throw .reported
  if settings.format ≠ .json then Session.status settings "no problems found"

def runTokenize (settings : Settings) (path : Bytes) : Action Unit := do
  match tokenizeFile (← get).files path settings.maxDiagnostics with
  | .error fault => throw (.io fault.message)
  | .ok result =>
      publish (if settings.format = .json then Token.document result.file result.tokens
        else Token.listing result.file result.tokens)
      conclude Session.complain settings result.bag result.sources

def runParse (settings : Settings) (path : Bytes) : Action Unit := do
  match parseFile (← get).files path settings.maxDiagnostics with
  | .error fault => throw (.io fault.message)
  | .ok result =>
      Session.trace [.span .node "parser" [] []]
      if result.bag.hasErrors then
        Session.showBag Session.complain settings result.bag result.sources
        throw .reported
      let tree := if settings.format = .json then result.program.document?
        else result.program.outline? (some result.file)
      publish (tree.getD [])

def runDiag (settings : Settings) (arguments : List Bytes) : Action Unit := do
  match ← (loadProgram arguments : StateM Session _) with
  | .error (.load _ reason) => throw (.io reason)
  | .error fault => throw (.io fault.message)
  | .ok (sources, file) =>
      let made := diagnose sources file settings.maxDiagnostics
      Session.trace made.activities
      match made.outcome with
      | .error fault => throw (.usage fault.message)
      | .ok result =>
          Session.showPhases settings result
          conclude Session.say settings result.bag result.sources

end Minilang.Command
