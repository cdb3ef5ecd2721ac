import Minilang.Ir.Basic
import Minilang.Ir.Flaw
import Minilang.Text.Blank
import Minilang.Text.Number
import Std.Data.HashMap

/-! Reading intermediate code from its text, line by line: format strings, declarations and one
function. What is read has each name defined once, every used name defined somewhere, every
labelled branch going to a label that exists, and every block closed by a terminator. -/

namespace Minilang.Ir

/-- An instruction and the line it stands on. -/
structure Placed where
  insn : Insn
  line : Nat
  deriving Repr

/-- Code that can be run. -/
structure Code where
  insns : Array Placed := #[]
  /-- The index of the first instruction behind each label. -/
  labels : Std.HashMap Bytes Nat := {}
  globals : Std.HashMap Bytes Bytes := {}

def isNameByte (b : UInt8) : Bool :=
  b == 36 || b == 46 || b == 95 || b == 45 || Bytes.isLetter b || Bytes.isDigit b

/-- The name at the start of a text. -/
def leadingName (text : Bytes) : Bytes := text.takeWhile isNameByte

def readOperand (text : Bytes) : Except Flaw Operand :=
  let text := Text.trim text
  match text with
  | 37 :: name =>
      if name.isEmpty || !name.all isNameByte then .error (.badValue text) else .ok (.reg name)
  | _ =>
      match Text.int32? text with
      | .ok value => .ok (.imm value)
      | .error _ => .error (.badOperand text)

/-- A pointer to a named cell, in either dialect. -/
def readPointer (text : Bytes) : Except Flaw Bytes :=
  match Text.words text with
  | [type, name] =>
      if type = Dialect.opaquePointers.cellPointer || type = Dialect.typedPointers.cellPointer then
        match readOperand name with
        | .ok (.reg name) => .ok name
        | _ => .error (.badPointer text)
      else .error (.badPointer text)
  | _ => .error (.badPointer text)

def argumentsLoop : Bytes → Int → Bytes → List Bytes → List Bytes
  | [], _, piece, done => (Text.trim piece.reverse :: done).reverse
  | b :: rest, depth, piece, done =>
      if b = 40 || b = 91 then argumentsLoop rest (depth + 1) (b :: piece) done
      else if b = 41 || b = 93 then argumentsLoop rest (depth - 1) (b :: piece) done
      else if b = 44 && depth == 0 then
        argumentsLoop rest depth [] (Text.trim piece.reverse :: done)
      else argumentsLoop rest depth (b :: piece) done

/-- The pieces between commas outside parentheses and brackets. -/
def arguments (text : Bytes) : List Bytes := argumentsLoop text 0 [] []

/-- The text around the first space; without one, everything comes before it. -/
def cutSpace (text : Bytes) : Bytes × Bytes := (Bytes.cut? 32 text).getD (text, [])

private def unescapeLoop (name : Bytes) : Bytes → Bytes → Except Flaw Bytes
  | [], done => .ok done.reverse
  | 92 :: a :: b :: rest, done =>
      match Bytes.hexValue? a, Bytes.hexValue? b with
      | some high, some low => unescapeLoop name rest ((16 * high + low).toUInt8 :: done)
      | _, _ => .error (.badEscape name [92, a, b])
  | 92 :: _, _ => .error (.truncatedEscape name)
  | b :: rest, done => unescapeLoop name rest (b :: done)

/-- A format string: its name and its bytes without the closing zero. -/
def readGlobal (line : Bytes) : Except Flaw (Bytes × Bytes) := do
  let name := leadingName (line.drop 1)
  match Bytes.find? "c\"" line with
  | none => .error (.notByteString name)
  | some start =>
      match Bytes.cut? 34 (line.drop (start + 2)) with
      | none => .error (.openString name)
      | some (text, _) => return (name, Bytes.withoutEnd [0] (← unescapeLoop name text []))

/-- Refuses an instruction without a named result. -/
def named (word : Bytes) (insn : Insn) : Except Flaw Insn :=
  if insn.result.isNone then .error (.unnamedResult word) else .ok insn

/-- The two operands of a calculation or comparison, the first with its type. -/
def readPair (word line : Bytes) : List Bytes → Except Flaw (Operand × Operand)
  | [left, right] =>
      match Bytes.after? "i32 " left with
      | none => .error (.badForm word line)
      | some left => do return (← readOperand left, ← readOperand right)
  | _ => .error (.badForm word line)

def readBranchTarget (text : Bytes) : Except Flaw Bytes :=
  match Bytes.after? "label %" text with
  | some label => .ok label
  | none => .error (.badTarget text)

def readCall (rest : Bytes) : Except Flaw Action := do
  match Bytes.cut? 64 rest with
  | none => .error .noCallee
  | some (_, tail) =>
      let callee := leadingName tail
      match tail.drop callee.length with
      | 40 :: inside =>
          match Bytes.before? ")" inside with
          | none => .error (.badForm "call" rest)
          | some inside =>
              match arguments inside with
              | [format, argument] =>
                  match Bytes.findLast? 64 format with
                  | none => .error (.noFormat format)
                  | some at_ =>
                      let format := leadingName (format.drop (at_ + 1))
                      if callee = ("printf" : Bytes) then
                        match Bytes.after? "i32 " argument with
                        | none => .error (.printValue argument)
                        | some value => return .print format (← readOperand value)
                      else if callee = ("scanf" : Bytes) then
                        return .scan format (← readPointer argument)
                      else .error (.unsupportedCallee callee)
              | _ => .error (.callArity callee)
      | _ => .error (.badForm "call" rest)

/-- The instruction after an optional result, given whole for messages. -/
def readAction (result : Option Bytes) (line : Bytes) : Except Flaw Insn := do
  let (word, rest) := cutSpace line
  let args := arguments rest
  let made := fun action => ({ result, action } : Insn)
  if word = ("alloca" : Bytes) then
    if args.head? = some "i32" then named word (made .alloca) else .error .onlyIntCells
  else if word = ("store" : Bytes) then
    match args with
    | value :: cell :: _ =>
        match Bytes.after? "i32 " value with
        | none => .error (.badForm word line)
        | some value => return made (.store (← readOperand value) (← readPointer cell))
    | _ => .error (.badForm word line)
  else if word = ("load" : Bytes) then
    match args with
    | type :: cell :: _ =>
        if type = ("i32" : Bytes) then named word (made (.load (← readPointer cell)))
        else .error (.badForm word line)
    | _ => .error (.badForm word line)
  else if let some op := Calc.ofName? word then
    let (left, right) ← readPair word line args
    named word (made (.compute op left right))
  else if word = ("icmp" : Bytes) then
    let (test, tail) := cutSpace rest
    match Test.ofName? test with
    | none => .error (.unsupportedTest test)
    | some test =>
        let (left, right) ← readPair word line (arguments tail)
        named word (made (.compare test left right))
  else if word = ("zext" : Bytes) then
    match (Bytes.after? "i1 " rest).bind (Bytes.before? " to i32") with
    | none => .error (.badForm word line)
    | some flag => named word (made (.widen (← readOperand flag)))
  else if word = ("br" : Bytes) then
    if let some label := Bytes.after? "label %" rest then return made (.jump label)
    else
      match args with
      | [flag, yes, no] =>
          match Bytes.after? "i1 " flag with
          | none => .error (.badForm word line)
          | some flag =>
              return made (.branch (← readOperand flag) (← readBranchTarget yes)
                (← readBranchTarget no))
      | _ => .error (.badForm word line)
  else if word = ("call" : Bytes) then return made (← readCall rest)
  else if word = ("ret" : Bytes) then
    match Bytes.after? "i32 " rest with
    | none => .error (.badForm word line)
    | some value => return made (.ret (← readOperand value))
  else .error (.unsupportedInsn word)

/-- An instruction from a line without surrounding white space. -/
def readInsn (line : Bytes) : Except Flaw Insn := do
  if line.head? = some 37 then
    match Bytes.find? " = " line with
    | none => .error (.expectedAssignment line)
    | some at_ =>
        match ← readOperand (line.take at_) with
        | .reg name => readAction (some name) (line.drop (at_ + 3))
        | .imm _ => readAction none (line.drop (at_ + 3))
  else readAction none line

structure Reading where
  code : Code := {}
  declared : List Bytes := []
  inMain : Bool := false
  sawMain : Bool := false
  /-- The last instruction closed its block. -/
  closed : Bool := true

namespace Reading

/-- A line outside the function. -/
def topLevel (state : Reading) (line : Bytes) : Except Flaw Reading := do
  if line.startsWith "source_filename" || line.startsWith "target " then return state
  else if line.startsWith "@" then
    let (name, text) ← readGlobal line
    return { state with
      code := { state.code with globals := state.code.globals.insert name text } }
  else if line.startsWith "declare " then
    match Bytes.cut? 64 line with
    | none => return state
    | some (_, tail) => return { state with declared := leadingName tail :: state.declared }
  else if line = ("define i32 @main() \x7b" : Bytes) then
    if state.sawMain then .error .secondMain
    else return { state with inMain := true, sawMain := true }
  else .error (.unsupportedLine line)

/-- Opens a block. -/
def openBlock (state : Reading) (label : Bytes) : Except Flaw Reading :=
  if state.code.labels.contains label then .error (.labelTwice label)
  else if !state.closed then .error (.fallsThrough label)
  else
    let labels := state.code.labels.insert label state.code.insns.size
    .ok { state with code := { state.code with labels }, closed := false }

/-- A library function must be declared and its format known. -/
def checkCall (state : Reading) (callee format : Bytes) : Except Flaw Unit :=
  if !state.declared.contains callee then .error (.undeclared callee)
  else if !state.code.globals.contains format then .error (.unknownGlobal format)
  else .ok ()

def addInsn (state : Reading) (number : Nat) (line : Bytes) : Except Flaw Reading := do
  if state.closed && !state.code.insns.isEmpty then throw .afterTerminator
  let insn ← readInsn line
  match insn.action with
  | .print format _ => state.checkCall "printf" format
  | .scan format _ => state.checkCall "scanf" format
  | _ => pure ()
  return { state with
    code := { state.code with insns := state.code.insns.push ⟨insn, number⟩ }
    closed := insn.action.isTerminator }

/-- A line of the function. -/
def inside (state : Reading) (number : Nat) (line : Bytes) : Except Flaw Reading :=
  if line = [125] then
    if state.closed then .ok { state with inMain := false } else .error .openLastBlock
  else
    match Bytes.before? ":" line with
    | some label =>
        if line.any fun b => b = 32 || b = 9 then state.addInsn number line
        else state.openBlock label
    | none => state.addInsn number line

def addLine (state : Reading) (number : Nat) (raw : Bytes) : Except Flaw Reading :=
  let line := Text.trim raw
  if line.isEmpty || line.head? = some 59 then .ok state
  else if state.inMain then state.inside number line
  else state.topLevel line

def addLines (state : Reading) : Nat → List Bytes → Except Machine.Fault Reading
  | _, [] => .ok state
  | number, line :: rest =>
      match state.addLine number line with
      | .error flaw => .error (flaw.faultAt number)
      | .ok state => state.addLines (number + 1) rest

end Reading

namespace Code

/-- The line of each definition; no name is defined twice or is a label as well. -/
def definitions (code : Code) : List Placed → Std.HashMap Bytes Nat →
    Except Machine.Fault (Std.HashMap Bytes Nat)
  | [], defined => .ok defined
  | ⟨insn, line⟩ :: rest, defined =>
      match insn.result with
      | none => code.definitions rest defined
      | some name =>
          match defined[name]? with
          | some first => .error ((Flaw.assignedTwice name first).faultAt line)
          | none =>
              if code.labels.contains name then .error ((Flaw.valueAndLabel name).faultAt line)
              else code.definitions rest (defined.insert name line)

/-- Every used name is defined, and every branch goes to a label; a branch to the empty label is
not looked at. -/
def checkUses (code : Code) (defined : Std.HashMap Bytes Nat) : List Placed →
    Except Machine.Fault Unit
  | [] => .ok ()
  | ⟨insn, line⟩ :: rest =>
      match insn.action.uses.find? fun name => !defined.contains name with
      | some name => .error ((Flaw.undefinedValue name).faultAt line)
      | none =>
          match insn.action.targets.find? fun label =>
              !label.isEmpty && !code.labels.contains label with
          | some label => .error ((Flaw.undefinedLabel label).faultAt line)
          | none => code.checkUses defined rest

def check (code : Code) : Except Machine.Fault Unit := do
  code.checkUses (← code.definitions code.insns.toList {}) code.insns.toList

/-- Reads and checks a module. -/
def read (text : Bytes) : Except Machine.Fault Code := do
  let state ← Reading.addLines {} 1 (Bytes.split 10 text)
  if !state.sawMain then throw Flaw.noMain.fault
  if state.inMain then throw Flaw.openMain.fault
  state.code.check
  return state.code

end Code

end Minilang.Ir
