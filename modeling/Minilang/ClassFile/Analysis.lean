import Minilang.ClassFile.Decode
import Minilang.ClassFile.Pool
import Minilang.ClassFile.Types

/-! Type analysis of method bodies. The types of locals and stack on entry to every instruction
are found by simulation along all branches. Stacks that meet must agree; a local whose types
disagree becomes unknown. -/

namespace Minilang.ClassFile

/-- Types on entry to an instruction; the top of the stack comes first. -/
structure TypeState where
  locals : Array VType
  stack : List VType
  deriving Repr, Inhabited

inductive VerifyCause where
  | emptyCode
  | badTarget (target : Int)
  | fallsOff
  | unreachable
  | depthMismatch (known incoming : Nat)
  | slotMismatch (slot : Nat) (known incoming : VType)
  | underflow
  | expectedInt (found : VType)
  | localRange (slot size : Nat)
  | badIntLoad (slot : Nat) (found : VType)
  | badRefLoad (slot : Nat) (found : VType)
  | badRefStore (found : VType)
  | pool (fault : PoolFault)
  | badConstant (tag : Nat)
  | descriptor (fault : DescriptorFault)
  | badArgument (index : Nat) (ref : MemberRef) (found wanted : VType)
  | badReceiver (ref : MemberRef) (found : VType)
  | initialised (found : VType)
  deriving DecidableEq, Repr

namespace VerifyCause

def message : VerifyCause → Bytes
  | emptyCode => "empty code"
  | badTarget target =>
      "branch into the middle of an instruction (target " ++ Bytes.int target ++ ")"
  | fallsOff => "execution falls off the end of the code"
  | unreachable => "unreachable code"
  | depthMismatch known incoming =>
      "stack depth mismatch at join: " ++ Bytes.dec known ++ " vs " ++ Bytes.dec incoming
  | slotMismatch slot known incoming =>
      "stack slot " ++ Bytes.dec slot ++ " mismatch at join: " ++ known.text ++ " vs " ++
        incoming.text
  | underflow => "operand stack underflow"
  | expectedInt found => "expected int on stack, found " ++ found.text
  | localRange slot size =>
      "local " ++ Bytes.dec slot ++ " out of range (max_locals " ++ Bytes.dec size ++ ")"
  | badIntLoad slot found => "iload of local " ++ Bytes.dec slot ++ " holding " ++ found.text
  | badRefLoad slot found => "aload of local " ++ Bytes.dec slot ++ " holding " ++ found.text
  | badRefStore found => "astore of " ++ found.text
  | pool fault => fault.message
  | badConstant tag => "ldc of unsupported constant tag " ++ Bytes.dec tag
  | descriptor fault => fault.message
  | badArgument index ref found wanted =>
      "argument " ++ Bytes.dec index ++ " of " ++ ref.text ++ ": have " ++ found.text ++
        ", want " ++ wanted.text
  | badReceiver ref found => "receiver of " ++ ref.text ++ " is " ++ found.text
  | initialised found => "<init> on initialized " ++ found.text

end VerifyCause

inductive AnalysisFault where
  | decode (fault : DecodeFault)
  | verify (offset : Nat) (cause : VerifyCause)
  deriving DecidableEq, Repr

namespace AnalysisFault

def message : AnalysisFault → Bytes
  | decode fault => fault.message
  | verify offset cause => "verify: offset " ++ Bytes.dec offset ++ ": " ++ cause.message

/-- Whether the code was refused by the type rules. -/
def isVerify : AnalysisFault → Bool
  | decode _ => false
  | verify .. => true

end AnalysisFault

namespace TypeState

def push (state : TypeState) (type : VType) : TypeState :=
  { state with stack := type :: state.stack }

def popInt (state : TypeState) : Except VerifyCause TypeState :=
  match state.stack with
  | [] => .error .underflow
  | .int :: rest => .ok { state with stack := rest }
  | found :: _ => .error (.expectedInt found)

def loadLocal (state : TypeState) (slot : Nat) : Except VerifyCause VType :=
  match state.locals[slot]? with
  | some type => .ok type
  | none => .error (.localRange slot state.locals.size)

/-- The slot of a store is checked before what is stored. -/
def checkSlot (state : TypeState) (slot : Nat) : Except VerifyCause Unit :=
  if slot < state.locals.size then .ok () else .error (.localRange slot state.locals.size)

def setLocal (state : TypeState) (slot : Nat) (type : VType) : TypeState :=
  { state with locals := state.locals.setIfInBounds slot type }

/-- Turns an uninitialised object into an instance wherever it is known. -/
def initialise (state : TypeState) (raw : VType) (owner : Bytes) : TypeState :=
  let done := fun type => if type = raw then VType.object owner else type
  { locals := state.locals.map done, stack := state.stack.map done }

end TypeState

def lookUp {α : Type} : Except PoolFault α → Except VerifyCause α
  | .ok value => .ok value
  | .error fault => .error (.pool fault)

def described {α : Type} : Except DescriptorFault α → Except VerifyCause α
  | .ok value => .ok value
  | .error fault => .error (.descriptor fault)

/-- The first argument whose kind is not that of its parameter. -/
def argumentMismatch (ref : MemberRef) :
    Nat → List VType → List VType → Option VerifyCause
  | index, found :: rest, wanted :: params =>
      if found.sameKind wanted then argumentMismatch ref (index + 1) rest params
      else some (.badArgument index ref found wanted)
  | _, _, _ => none

/-- A call: arguments from the top of the stack, below them the receiver. A constructor call
needs an uninitialised receiver and initialises it everywhere. -/
def TypeState.invoke (state : TypeState) (kind : InvokeKind) (ref : MemberRef) :
    Except VerifyCause TypeState := do
  let (params, result) ← described (methodType ref.descriptor)
  let isInit := kind = .specialCall && ref.name = ("<init>" : Bytes)
  -- A constructor call on a stack that is too small has no initialised receiver either.
  let short := if isInit then VerifyCause.initialised .top else .underflow
  if state.stack.length < params.length then throw short
  let args := (state.stack.take params.length).reverse
  if let some cause := argumentMismatch ref 0 args params then throw cause
  let state := { state with stack := state.stack.drop params.length }
  let finish := fun (state : TypeState) => (result.map state.push).getD state
  if kind = .staticCall then return finish state
  match state.stack with
  | [] => throw short
  | receiver :: rest =>
      if !receiver.isRef then throw (.badReceiver ref receiver)
      let state := { state with stack := rest }
      if isInit then
        match receiver with
        | .uninit _ => return finish (state.initialise receiver ref.owner)
        | _ => throw (.initialised receiver)
      else return finish state

/-- The types after an instruction at an offset. -/
def TypeState.step (state : TypeState) (pool : Pool) (offset : Nat) :
    Action → Except VerifyCause TypeState
  | .nop | .goto _ | .ret => .ok state
  | .push _ => .ok (state.push .int)
  | .constant index => do
      match ← lookUp (pool.get index) with
      | .integer _ => return state.push .int
      | .string _ => return state.push (.object "java/lang/String")
      | constant => throw (.badConstant constant.tag)
  | .intLoad slot => do
      match ← state.loadLocal slot with
      | .int => return state.push .int
      | found => throw (.badIntLoad slot found)
  | .refLoad slot => do
      match ← state.loadLocal slot with
      | .object name => return state.push (.object name)
      | found => throw (.badRefLoad slot found)
  | .intStore slot => do
      state.checkSlot slot
      return (← state.popInt).setLocal slot .int
  | .refStore slot => do
      state.checkSlot slot
      match state.stack with
      | [] => throw .underflow
      | .object name :: rest => return { state with stack := rest }.setLocal slot (.object name)
      | found :: _ => throw (.badRefStore found)
  | .shuffle kind =>
      match kind.apply state.stack with
      | some stack => .ok { state with stack }
      | none => .error .underflow
  | .compute _ => do return (← (← state.popInt).popInt).push .int
  | .negate => do return (← state.popInt).push .int
  | .branchZero .. => state.popInt
  | .branchInts .. => do (← state.popInt).popInt
  | .getStatic index => do
      let ref ← lookUp (pool.member index)
      return state.push (← described (fieldType ref.descriptor))
  | .invoke kind index => do state.invoke kind (← lookUp (pool.member index))
  | .new index => do
      let _ ← lookUp (pool.className index)
      return state.push (.uninit offset)

def stackMismatch : List VType → List VType → Nat → Option VerifyCause
  | known :: rest, incoming :: others, slot =>
      if known = incoming then stackMismatch rest others (slot + 1)
      else some (.slotMismatch slot known incoming)
  | _, _, _ => none

def agreesFrom (known incoming : Array VType) : Nat → Nat → Bool
  | 0, _ => true
  | fuel + 1, slot =>
      match known[slot]? with
      | none => true
      | some type =>
          (type == .top || incoming[slot]? == some type) &&
            agreesFrom known incoming fuel (slot + 1)

/-- Whether the known types hold for the incoming ones as well. -/
def localsAgree (known incoming : Array VType) : Bool := agreesFrom known incoming known.size 0

/-- The known types where they agree with the incoming ones. -/
def meetLocals (known incoming : Array VType) : Array VType :=
  known.mapIdx fun slot type => if incoming[slot]? == some type then type else .top

/-- Folds the types of one more way into an instruction; nothing when they add nothing. -/
def TypeState.join (known : Option TypeState) (incoming : TypeState) :
    Except VerifyCause (Option TypeState) :=
  match known with
  | none => .ok (some incoming)
  | some known =>
      if known.stack.length ≠ incoming.stack.length then
        .error (.depthMismatch known.stack.length incoming.stack.length)
      else
        match stackMismatch known.stack.reverse incoming.stack.reverse 0 with
        | some cause => .error cause
        | none =>
            if localsAgree known.locals incoming.locals then .ok none
            else .ok (some { known with locals := meetLocals known.locals incoming.locals })

/-- Instructions with the index of each offset. -/
structure Body where
  insns : Array Insn
  index : Std.HashMap Nat Nat

namespace Body

def ofInsns (insns : Array Insn) : Body :=
  { insns
    index := (insns.foldl (fun (state : Nat × Std.HashMap Nat Nat) insn =>
      (state.1 + 1, state.2.insert insn.offset state.1)) (0, {})).2 }

/-- The index of the instruction that starts at an offset. -/
def indexOf? (body : Body) (offset : Int) : Option Nat :=
  if offset < 0 then none else body.index[offset.toNat]?

/-- The first branch that does not go to the start of an instruction. -/
def badBranch? (body : Body) : Option (Insn × Int) :=
  body.insns.toList.findSome? fun insn =>
    match insn.action.target? with
    | none => none
    | some target => if (body.indexOf? target).isSome then none else some (insn, target)

/-- The offsets that are branched to, ascending. -/
def targets (body : Body) : List Nat :=
  let hit := body.insns.foldl (fun (seen : Std.HashMap Nat Unit) insn =>
    match insn.action.target? with
    | some target => seen.insert target.toNat ()
    | none => seen) {}
  (body.insns.toList.map Insn.offset).filter hit.contains

/-- Where control may go from an instruction: its target, then the next one. -/
def successors (body : Body) (i : Nat) (insn : Insn) : Except VerifyCause (List Nat) :=
  let action := insn.action
  let jump := (action.target?.bind body.indexOf?).toList
  if action.fallsThrough then
    if i + 1 < body.insns.size then .ok (jump ++ [i + 1]) else .error .fallsOff
  else .ok jump

end Body

structure Flow where
  states : Array (Option TypeState)
  maxStack : Nat := 0
  /-- Instructions whose entry types changed, latest first. -/
  work : List Nat := []

namespace Flow

def joinAll (body : Body) (types : TypeState) : Flow → List Nat → Except AnalysisFault Flow
  | flow, [] => .ok flow
  | ⟨states, maxStack, work⟩, j :: rest =>
      match TypeState.join (states[j]?).join types with
      | .error cause =>
          .error (.verify ((body.insns[j]?.map Insn.offset).getD 0) cause)
      | .ok none => joinAll body types ⟨states, maxStack, work⟩ rest
      | .ok (some state) =>
          joinAll body types ⟨states.setIfInBounds j (some state), maxStack, j :: work⟩ rest

/-- Simulates one instruction and hands its types on. -/
def visit (body : Body) (pool : Pool) (flow : Flow) (i : Nat) : Except AnalysisFault Flow :=
  match body.insns[i]?, (flow.states[i]?).join with
  | some insn, some types => do
      match types.step pool insn.offset insn.action with
      | .error cause => .error (.verify insn.offset cause)
      | .ok after =>
          let depth := max types.stack.length after.stack.length
          let flow := { flow with maxStack := max flow.maxStack depth }
          match body.successors i insn with
          | .error cause => .error (.verify insn.offset cause)
          | .ok next => joinAll body after flow next
  | _, _ => .ok flow

/-- Works until nothing changes. Every round gives an instruction its first types or makes one
more local unknown, which bounds the number of rounds. -/
def settle (body : Body) (pool : Pool) : Nat → Flow → Except AnalysisFault Flow
  | 0, flow => .ok flow
  | fuel + 1, flow =>
      match flow.work with
      | [] => .ok flow
      | i :: rest =>
          match visit body pool { flow with work := rest } i with
          | .error fault => .error fault
          | .ok flow => settle body pool fuel flow

end Flow

structure Analysis where
  body : Body
  maxStack : Nat
  /-- Types on entry to each instruction. -/
  states : Array TypeState

namespace Analysis

/-- Stack depth on entry to each instruction. -/
def depths (analysis : Analysis) : List (Nat × Nat) :=
  (analysis.body.insns.toList.zip analysis.states.toList).map fun (insn, state) =>
    (insn.offset, state.stack.length)

/-- Types at every branch target, by offset. -/
def frames (analysis : Analysis) : List Frame :=
  analysis.body.targets.filterMap fun offset => do
    let i ← analysis.body.index[offset]?
    let state ← analysis.states[i]?
    return { offset, locals := trimTop state.locals.toList, stack := state.stack.reverse }

end Analysis

/-- Types of every instruction, all of which must be reachable. -/
def reachedAll (body : Body) (states : Array (Option TypeState)) :
    Except AnalysisFault (Array TypeState) :=
  match (body.insns.zip states).find? fun pair => pair.2.isNone with
  | some (insn, _) => .error (.verify insn.offset .unreachable)
  | none => .ok (states.filterMap id)

/-- Analyses a method body from the types of its first locals. -/
def analyze (code : Bytes) (pool : Pool) (init : List VType) (maxLocals : Nat) :
    Except AnalysisFault Analysis := do
  match decode code with
  | .error fault => .error (.decode fault)
  | .ok insns =>
      if insns.isEmpty then throw (.verify 0 .emptyCode)
      let body := Body.ofInsns insns
      if let some (insn, target) := body.badBranch? then
        throw (.verify insn.offset (.badTarget target))
      let locals := (init ++ List.replicate (maxLocals - init.length) VType.top).toArray
      let start : Flow :=
        { states := (Array.replicate insns.size none).setIfInBounds 0
            (some { locals, stack := [] })
          work := [0] }
      let flow ← Flow.settle body pool (insns.size * (locals.size + 1) + 1) start
      return { body, maxStack := flow.maxStack, states := ← reachedAll body flow.states }

end Minilang.ClassFile
