import Minilang.Tree.Walk
import Minilang.Diagnostic.Bag
import Std.Data.HashMap

/-! The variables of a program: every name that is assigned, read into or counts a loop, in the
order of first occurrence. A name that only occurs in expressions is undefined. -/

namespace Minilang

structure Variables where
  names : Array Bytes := #[]
  /-- Where each name first received a value. -/
  spans : Array Span := #[]
  index : Std.HashMap Bytes Nat := {}

namespace Variables

def size (vars : Variables) : Nat := vars.names.size

def has (vars : Variables) (name : Bytes) : Bool := vars.index.contains name

/-- The position of a name. -/
def index? (vars : Variables) (name : Bytes) : Option Nat := vars.index[name]?

def span? (vars : Variables) (name : Bytes) : Option Span :=
  (vars.index? name).bind fun i => vars.spans[i]?

def add (vars : Variables) (name : Bytes) (span : Span) : Variables :=
  if vars.has name then vars
  else
    let position := vars.names.size
    { names := vars.names.push name, spans := vars.spans.push span
      index := vars.index.insert name position }

/-- Takes in what a node defines. -/
def addNode (vars : Variables) : Node → Variables
  | .stmt (.assign _ name span _) | .stmt (.read _ name span)
  | .stmt (.forLoop _ name span _ _ _ _) => vars.add name span
  | _ => vars

def ofProgram (program : Program) : Variables := program.nodes.foldl addNode {}

/-- The variables of a tree built by hand; there are none of a tree that lacks contents. -/
def ofProgram? (program : Program) : Option Variables :=
  if program.isLinked then some (ofProgram program) else none

end Variables

def undefinedMessage (name : Bytes) : Bytes := "Undefined variable: " ++ name

def undefinedReport (span : Span) (name : Bytes) : Diagnostic :=
  .error .undefinedVariable span (undefinedMessage name)

/-- One report for each reference to a name outside `vars`, in source order. -/
def Program.undefinedReports (program : Program) (vars : Variables) : List Diagnostic :=
  program.nodes.filterMap fun
    | .expr (.varRef site name) =>
        if vars.has name then none else some (undefinedReport site.span name)
    | _ => none

end Minilang
