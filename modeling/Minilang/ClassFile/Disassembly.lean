import Minilang.ClassFile.Decode
import Minilang.ClassFile.Pool

/-! Code as text, one instruction a line behind its offset. Operands that refer to the constant
pool show what they refer to, or their index when they refer to nothing of the right kind. -/

namespace Minilang.ClassFile

def Insn.text (insn : Insn) (pool : Pool) : Bytes :=
  let name := Bytes.onlyIf insn.wide "wide " ++ insn.op.name
  let plain := name ++ " " ++ Bytes.int insn.arg
  let bare := name ++ " #" ++ Bytes.int insn.arg
  match insn.action with
  | .branchZero .. | .branchInts .. | .goto _ => plain
  | .constant index =>
      match pool.get index with
      | .ok (.integer value) => name ++ " " ++ Bytes.int value.toInt
      | _ => bare
  | .getStatic index | .invoke _ index =>
      match pool.member index with
      | .ok ref => name ++ " " ++ ref.text
      | .error _ => bare
  | .new index =>
      match pool.className index with
      | .ok owner => name ++ " " ++ owner
      | .error _ => bare
  | _ => if insn.wide || 1 < insn.length then plain else name

def disassemble (code : Bytes) (pool : Pool) : Except DecodeFault Bytes := do
  return (← decode code).toList.flatMap fun insn =>
    Bytes.padLeft 4 (Bytes.dec insn.offset) ++ ": " ++ insn.text pool ++ "\n"

end Minilang.ClassFile
