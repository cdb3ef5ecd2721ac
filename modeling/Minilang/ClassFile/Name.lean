import Minilang.Bytes

/-! Names of generated classes. -/

namespace Minilang.ClassFile

private def isNameStart (b : UInt8) : Bool := Bytes.isLetter b || b == 95 || b == 36

private def isNamePart : Bytes → Bool
  | [] => false
  | first :: rest => isNameStart first && rest.all fun b => isNameStart b || Bytes.isDigit b

/-- Whether a name is made of identifiers, the packages and the class, with slashes between. -/
def isClassName (name : Bytes) : Bool := (Bytes.split 47 name).all isNamePart

/-- The name a class is generated under; the empty name means `Main`. -/
def generatedName (name : Bytes) : Bytes := if name.isEmpty then "Main" else name

end Minilang.ClassFile
