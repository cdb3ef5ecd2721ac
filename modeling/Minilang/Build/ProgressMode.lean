import Minilang.Text.Blank
import Minilang.Text.Lower
import Minilang.Text.Quoted

/-! Whether a build draws its live view. -/

namespace Minilang.Build

inductive ProgressMode where
  /-- On a terminal only. -/
  | auto
  | on
  | off
  deriving DecidableEq, Repr

namespace ProgressMode

def all : List ProgressMode := [auto, on, off]

def name : ProgressMode → Bytes
  | auto => "auto"
  | on => "on"
  | off => "off"

/-- The choices, as a flag shows them. -/
def choices : Bytes := Bytes.join "|" (all.map name)

/-- Case and surrounding white space do not matter. -/
def parse (text : Bytes) : Except Bytes ProgressMode :=
  let text := Text.lower (Text.trim text)
  match all.find? (·.name = text) with
  | some mode => .ok mode
  | none => .error ("invalid --ui value " ++ Text.quoted text ++ " (expected " ++ choices ++ ")")

def draws (mode : ProgressMode) (terminal : Bool) : Bool :=
  match mode with
  | auto => terminal
  | on => true
  | off => false

end ProgressMode

end Minilang.Build
