import Minilang.ClassFile.Assembly
import Minilang.Text.Number

/-! Assembly as words: a verb, then its operands. Instructions go by mnemonic or number, labels by
any word. -/

namespace Minilang.ClassFile

/-- Labels seen so far; a label's number is its position. -/
abbrev Labels := List Bytes

namespace Labels

/-- The number of a label, which is a new one for a new name. -/
def number (labels : Labels) (name : Bytes) : Nat × Labels :=
  match labels.idxOf? name with
  | some i => (i, labels)
  | none => (labels.length, labels ++ [name])

end Labels

private def wordNumber (text : Bytes) : Int := (Text.integer? 10 64 text).toOption.getD 0

/-- The instruction of a word; an unknown mnemonic does nothing. -/
def Opcode.ofWord (text : Bytes) : Opcode :=
  if text.all Bytes.isDigit then ⟨(Bytes.digitsValue text).toUInt8⟩
  else (ofName? text).getD .nop

/-- The step that words describe; words of no known shape describe none. -/
def Step.ofWords? (labels : Labels) (words : List Bytes) : Option (Step × Labels) :=
  match words with
  | [] => none
  | verb :: operands =>
      let operand := fun i => operands.getD i []
      let op := Opcode.ofWord (operand 0)
      let ref : MemberRef := ⟨operand 1, operand 2, operand 3⟩
      let plain := fun step => some (step, labels)
      if verb = "insn" then plain (.insn op)
      else if verb = "push" then plain (.push (wordNumber (operand 0)).toInt32)
      else if verb = "var" then plain (.localVar op (wordNumber (operand 1)))
      else if verb = "jump" then
        let (label, labels) := labels.number (operand 1)
        some (.jump op label, labels)
      else if verb = "mark" then
        let (label, labels) := labels.number (operand 0)
        some (.mark label, labels)
      else if verb = "type" then plain (.classOperand op (operand 1))
      else if verb = "field" then plain (.fieldOperand op ref)
      else if verb = "method" then plain (.methodOperand op ref)
      else if verb = "line" then plain (.line (wordNumber (operand 0)))
      else if verb = "nops" then plain (.nops (wordNumber (operand 0)).toNat)
      else none

end Minilang.ClassFile
