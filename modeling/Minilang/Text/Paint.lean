import Minilang.Bytes

/-! Terminal colours by escape sequences. -/

namespace Minilang.Text

inductive Paint where
  | bold
  | faint
  | red
  | green
  | yellow
  | blue
  | magenta
  | cyan
  deriving DecidableEq

namespace Paint

def code : Paint → Nat
  | bold => 1
  | faint => 2
  | red => 31
  | green => 32
  | yellow => 33
  | blue => 34
  | magenta => 35
  | cyan => 36

/-- What undoes the paint; weights have a code of their own. -/
def resetCode : Paint → Nat
  | bold | faint => 22
  | _ => 0

private def escape (codes : List Nat) : Bytes :=
  "\x1b[" ++ Bytes.join ";" (codes.map Bytes.dec) ++ "m"

/-- The text in the given paints, or as it is when colours are off. -/
def apply (enabled : Bool) (paints : List Paint) (text : Bytes) : Bytes :=
  if enabled then escape (paints.map code) ++ text ++ escape (paints.map resetCode) else text

end Paint

end Minilang.Text
