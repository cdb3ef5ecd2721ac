import Minilang.ClassFile.Analysis
import Minilang.ClassFile.Class
import Minilang.Machine.Console

/-! Running class files. The static main method is analysed first; the machine relies on the
analysis and knows the few host objects that generated code touches. -/

namespace Minilang.ClassFile

open Machine (Console Fault Cause Run)

/-- What a stack position or a local variable holds. -/
inductive Value where
  | int (value : Int32)
  /-- An object the program can do nothing with. -/
  | other
  | stdin
  | stdout
  | scanner
  /-- A scanner before its constructor ran. -/
  | rawScanner
  deriving DecidableEq, Repr, Inhabited

namespace Value

/-- The integer; objects count as zero. -/
def toInt32 : Value → Int32
  | int value => value
  | _ => 0

end Value

/-- What a class asks of the host that it cannot do. -/
inductive Flaw where
  | malformed (fault : ParseFault)
  | noMain (name : Bytes)
  | refused (fault : AnalysisFault)
  | nonIntegerConstant
  | cannotInstantiate (name : Bytes)
  | unsupportedField (ref : MemberRef)
  | unsupportedMethod (ref : MemberRef)
  | unsupportedOpcode (op : Opcode)
  | scannerSource
  | notScanner
  | notPrintStream
  | fellOff
  deriving Repr

namespace Flaw

def message : Flaw → Bytes
  | malformed fault => "malformed class file: " ++ fault.message
  | noMain name => "class " ++ name ++ " has no static main(String[])"
  | refused fault => fault.message
  | nonIntegerConstant => "ldc of a non-integer constant"
  | cannotInstantiate name => "cannot instantiate " ++ name
  | unsupportedField ref => "unsupported field " ++ ref.text
  | unsupportedMethod ref => "unsupported method " ++ ref.text
  | unsupportedOpcode op => "unsupported opcode " ++ op.name
  | scannerSource => "Scanner must wrap System.in"
  | notScanner => "nextInt on a non-Scanner"
  | notPrintStream => "println on a non-PrintStream"
  | fellOff => "execution fell off the end of main"

end Flaw

/-- Why an instruction cannot be executed. -/
inductive Trouble where
  | flaw (flaw : Flaw)
  | cause (cause : Cause)
  /-- An access outside the stack or the locals, which the analysis rules out. -/
  | outOfBounds

structure MachineState where
  /-- Index of the next instruction. -/
  next : Nat := 0
  /-- Top first. -/
  stack : List Value := []
  locals : Array Value
  console : Console

def scannerClass : Bytes := "java/util/Scanner"

def systemIn : MemberRef :=
  { owner := "java/lang/System", name := "in", descriptor := "Ljava/io/InputStream;" }

def systemOut : MemberRef :=
  { owner := "java/lang/System", name := "out", descriptor := "Ljava/io/PrintStream;" }

def scannerInit : MemberRef :=
  { owner := scannerClass, name := "<init>", descriptor := "(Ljava/io/InputStream;)V" }

def nextInt : MemberRef := { owner := scannerClass, name := "nextInt", descriptor := "()I" }

def println : MemberRef :=
  { owner := "java/io/PrintStream", name := "println", descriptor := "(I)V" }

namespace MachineState

def push (state : MachineState) (value : Value) : MachineState :=
  { state with stack := value :: state.stack }

def pop (state : MachineState) : Except Trouble (Value × MachineState) :=
  match state.stack with
  | value :: stack => .ok (value, { state with stack })
  | [] => .error .outOfBounds

def popInt (state : MachineState) : Except Trouble (Int32 × MachineState) := do
  let (value, state) ← state.pop
  return (value.toInt32, state)

def load (state : MachineState) (slot : Nat) : Except Trouble MachineState :=
  match state.locals[slot]? with
  | some value => .ok (state.push value)
  | none => .error .outOfBounds

def store (state : MachineState) (slot : Nat) : Except Trouble MachineState := do
  let (value, state) ← state.pop
  if slot < state.locals.size then
    return { state with locals := state.locals.setIfInBounds slot value }
  else throw .outOfBounds

/-- Continues at an offset. -/
def goto (state : MachineState) (body : Body) (target : Int) : Except Trouble MachineState :=
  match body.indexOf? target with
  | some next => .ok { state with next }
  | none => .error .outOfBounds

/-- A call of a host method. -/
def invoke (state : MachineState) (ref : MemberRef) : Except Trouble MachineState := do
  if ref.text = scannerInit.text then
    let (argument, state) ← state.pop
    let (receiver, state) ← state.pop
    if argument ≠ .stdin ∨ receiver ≠ .rawScanner then throw (.flaw .scannerSource)
    -- The copy below the receiver is initialised too.
    let done := fun value => if value = Value.rawScanner then Value.scanner else value
    return { state with stack := state.stack.map done }
  else if ref.text = nextInt.text then
    let (receiver, state) ← state.pop
    if receiver ≠ .scanner then throw (.flaw .notScanner)
    match state.console.read with
    | (.error fault, _) => throw (.cause fault.cause)
    | (.ok value, console) => return { state with console }.push (.int value)
  else if ref.text = println.text then
    let (value, state) ← state.popInt
    let (receiver, state) ← state.pop
    if receiver ≠ .stdout then throw (.flaw .notPrintStream)
    match state.console.print value with
    | .error text => throw (.cause (.output text))
    | .ok console => return { state with console }
  else throw (.flaw (.unsupportedMethod ref))

def unresolved : MemberRef := { owner := [], name := [], descriptor := [] }

/-- Executes an instruction other than a return; the state already points behind it. -/
def execute (state : MachineState) (body : Body) (pool : Pool) (insn : Insn) :
    Except Trouble MachineState := do
  match insn.action with
  | .nop | .ret => return state
  | .push value => return state.push (.int value)
  | .constant index =>
      match pool.get index with
      | .ok (.integer value) => return state.push (.int value)
      | _ => throw (.flaw .nonIntegerConstant)
  | .intLoad slot | .refLoad slot => state.load slot
  | .intStore slot | .refStore slot => state.store slot
  | .shuffle kind =>
      match kind.apply state.stack with
      | some stack => return { state with stack }
      | none => throw .outOfBounds
  | .negate =>
      let (value, state) ← state.popInt
      return state.push (.int (-value))
  | .compute op =>
      let (right, state) ← state.popInt
      let (left, state) ← state.popInt
      match op.eval? left right with
      | some value => return state.push (.int value)
      | none => throw (.cause (.divByZero "java.lang.ArithmeticException: / by zero"))
  | .branchZero cond target =>
      let (value, state) ← state.popInt
      if cond.holds value 0 then state.goto body target else return state
  | .branchInts cond target =>
      let (right, state) ← state.popInt
      let (left, state) ← state.popInt
      if cond.holds left right then state.goto body target else return state
  | .goto target => state.goto body target
  | .new index =>
      let name := (pool.className index).toOption.getD []
      if name = scannerClass then return state.push .rawScanner
      else throw (.flaw (.cannotInstantiate name))
  | .getStatic index =>
      let ref := (pool.member index).toOption.getD unresolved
      if ref.text = systemIn.text then return state.push .stdin
      else if ref.text = systemOut.text then return state.push .stdout
      else throw (.flaw (.unsupportedField ref))
  | .invoke .staticCall _ => throw (.flaw (.unsupportedOpcode insn.op))
  | .invoke _ index => state.invoke ((pool.member index).toOption.getD unresolved)

end MachineState

/-- What a step leads to. -/
inductive Outcome where
  | next (state : MachineState)
  | ended (run : Run)

/-- The fault of an instruction. Failed output has no source line. -/
def faultAt (code : CodeInfo) (offset : Nat) (cause : Cause) : Fault :=
  { cause, place := .pc offset
    line := match cause with
      | .output _ => 0
      | _ => code.lineAt offset }

/-- Executes one instruction. -/
def step (code : CodeInfo) (body : Body) (pool : Pool) (insn : Insn) (state : MachineState) :
    Outcome :=
  let console := state.console
  let stuck := fun cause =>
    Outcome.ended { console, ending := .fault (faultAt code insn.offset cause) }
  if insn.action = .ret then .ended { console, ending := .done }
  else
    match ({ state with next := state.next + 1 } : MachineState).execute body pool insn with
    | .error (.flaw flaw) => stuck (.badProgram flaw.message)
    | .error (.cause cause) => stuck cause
    | .error .outOfBounds => .ended { console, ending := .outOfBounds }
    | .ok next =>
        if next.next < body.insns.size then .next next
        else
          .ended
            { console := next.console
              ending := .fault (faultAt code insn.offset (.badProgram Flaw.fellOff.message)) }

/-- Runs for at most `fuel` steps, none of them beyond the limit (no limit when zero). -/
def runFrom (code : CodeInfo) (body : Body) (pool : Pool) (limit : Nat) :
    (fuel spent : Nat) → MachineState → Option Run
  | 0, _, _ => none
  | fuel + 1, spent, state =>
      match body.insns[state.next]? with
      | none => some { console := state.console, ending := .outOfBounds }
      | some insn =>
          if 0 < limit && limit ≤ spent then
            some
              { console := state.console
                ending := .fault (faultAt code insn.offset (.stepLimit limit)) }
          else
            match step code body pool insn state with
            | .next state => runFrom code body pool limit fuel (spent + 1) state
            | .ended run => some run

/-- The type of the argument of the main method. -/
def mainArgument : VType := .object "[Ljava/lang/String;"

def mainDescriptor : Bytes := "([Ljava/lang/String;)V"

/-- A class that is ready to run. -/
structure Loaded where
  code : CodeInfo
  pool : Pool
  analysis : Analysis

/-- Finds and analyses the main method of a class file. -/
def load (bytes : Bytes) : Except Flaw Loaded := do
  match Class.parse bytes with
  | .error fault => throw (.malformed fault)
  | .ok cls =>
      match cls.method? "main" mainDescriptor with
      | some { access, code := some code, .. } =>
          if access &&& 8 = 0 then throw (.noMain cls.name)
          match analyze code.bytes cls.pool [mainArgument] code.maxLocals with
          | .error fault => throw (.refused fault)
          | .ok analysis => return { code, pool := cls.pool, analysis }
      | _ => throw (.noMain cls.name)

/-- Loads a class file and runs it; nothing when the fuel does not suffice. -/
def run (bytes : Bytes) (limit fuel : Nat) (console : Console) : Option Run :=
  match load bytes with
  | .error flaw => some { console, ending := .fault { cause := .badProgram flaw.message } }
  | .ok { code, pool, analysis } =>
      let locals := (Array.replicate (max code.maxLocals 1) (Value.int 0)).setIfInBounds 0 .other
      runFrom code analysis.body pool limit fuel 0 { locals, console }

end Minilang.ClassFile
