import Minilang.Ir.Basic

/-! The text of intermediate code: one instruction or label a line, after a header that names the
source, the format strings and the two library functions. -/

namespace Minilang.Ir

namespace Global

/-- The size with the closing zero byte. -/
def size (format : Global) : Nat := format.text.length + 1

private def escape (b : UInt8) : Bytes :=
  if 32 ≤ b && b < 127 && b != 34 && b != 92 then [b]
  else 92 :: (Bytes.hex [b]).map fun d => if Bytes.isLower d then d - 32 else d

/-- The definition of a format string. -/
def definition (format : Global) : Bytes :=
  "@" ++ format.name ++ " = private unnamed_addr constant [" ++ Bytes.dec format.size ++
    " x i8] c\"" ++ (format.text ++ [0]).flatMap escape ++ "\", align 1\n"

end Global

namespace Dialect

/-- The argument that refers to a format string. -/
def formatArgument (dialect : Dialect) (name : Bytes) : Bytes :=
  match dialect with
  | opaquePointers => "ptr @" ++ name
  | typedPointers =>
      let size := if name = outFormat.name then outFormat.size else inFormat.size
      let array := "[" ++ Bytes.dec size ++ " x i8]"
      "i8* getelementptr inbounds (" ++ array ++ ", " ++ array ++ "* @" ++ name ++
        ", i32 0, i32 0)"

/-- A pointer to a cell. -/
def cell (dialect : Dialect) (name : Bytes) : Bytes := dialect.cellPointer ++ " %" ++ name

def call (dialect : Dialect) (callee format argument : Bytes) : Bytes :=
  "call i32 (" ++ dialect.bytePointer ++ ", ...) @" ++ callee ++ "(" ++
    dialect.formatArgument format ++ ", " ++ argument ++ ")"

end Dialect

def Action.render (dialect : Dialect) : Action → Bytes
  | alloca => "alloca i32, align 4"
  | store value cell => "store i32 " ++ value.text ++ ", " ++ dialect.cell cell ++ ", align 4"
  | load cell => "load i32, " ++ dialect.cell cell ++ ", align 4"
  | compute op left right => op.name ++ " i32 " ++ left.text ++ ", " ++ right.text
  | compare test left right => "icmp " ++ test.name ++ " i32 " ++ left.text ++ ", " ++ right.text
  | widen flag => "zext i1 " ++ flag.text ++ " to i32"
  | jump label => "br label %" ++ label
  | branch flag yes no => "br i1 " ++ flag.text ++ ", label %" ++ yes ++ ", label %" ++ no
  | print format value => dialect.call "printf" format ("i32 " ++ value.text)
  | scan format cell => dialect.call "scanf" format (dialect.cell cell)
  | ret value => "ret i32 " ++ value.text

def Insn.render (dialect : Dialect) (insn : Insn) : Bytes :=
  (insn.result.map fun name => ("%" ++ name ++ " = " : Bytes)).getD [] ++
    insn.action.render dialect

def Item.render (dialect : Dialect) : Item → Bytes
  | .label name => name ++ ":\n"
  | .insn body => "  " ++ body.render dialect ++ "\n"

/-- What precedes the function; an empty source name is left out. -/
def header (dialect : Dialect) (sourceName : Bytes) : Bytes :=
  Bytes.onlyIf (!sourceName.isEmpty)
      ("; ModuleID = '" ++ sourceName ++ "'\nsource_filename = " ++ Text.quoted sourceName ++
        "\n\n") ++
    outFormat.definition ++ inFormat.definition ++ "\ndeclare i32 @printf(" ++
    dialect.bytePointer ++ ", ...)\ndeclare i32 @scanf(" ++ dialect.bytePointer ++ ", ...)\n\n"

/-- The whole module around the body of its function. -/
def render (dialect : Dialect) (sourceName : Bytes) (body : List Item) : Bytes :=
  header dialect sourceName ++ "define i32 @main() \x7b\n" ++
    body.flatMap (Item.render dialect) ++ "\x7d\n"

end Minilang.Ir
