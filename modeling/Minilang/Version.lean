import Minilang.Text.Paint

/-! What a release of the compiler says of itself. -/

namespace Minilang

structure Version where
  number : Bytes := "0.1.0-dev"
  commit : Bytes := []
  commitMessage : Bytes := []
  date : Bytes := []
  deriving Repr

namespace Version

/-- Paints the three parts of a version number; any other number stays as it is. -/
def painted (version : Version) (color : Bool) : Bytes :=
  let (core, suffix) := match Bytes.cut? 45 version.number with
    | some (core, suffix) => (core, "-" ++ suffix)
    | none => (version.number, [])
  let paint := fun shade => Text.Paint.apply color [shade, .bold]
  match Bytes.split 46 core with
  | [major, minor, patch] =>
      paint .yellow major ++ "." ++ paint .green minor ++ "." ++ paint .blue patch ++ suffix
  | _ => version.number

private def field (label value : Bytes) : Bytes :=
  Bytes.onlyIf (!value.isEmpty) (label ++ ": " ++ value ++ "\n")

def summary (version : Version) (color : Bool) : Bytes :=
  "minicomp " ++ version.painted color ++ "\n" ++ field "commit" version.commit ++
    field "message" version.commitMessage ++ field "built" version.date

end Version

end Minilang
