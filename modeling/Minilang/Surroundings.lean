import Minilang.Path

/-! What a command finds around it besides files. -/

namespace Minilang

structure Surroundings where
  /-- Where the user's caches go; empty when that is not set. -/
  cacheHome : Bytes := []
  /-- The user's home; empty when that is not set. -/
  home : Bytes := []
  /-- Directories of programs. -/
  searchPath : List Bytes := []
  deriving Repr

namespace Surroundings

/-- The directory of the user's caches. -/
def cacheDir (surroundings : Surroundings) : Except Bytes Bytes :=
  if !surroundings.cacheHome.isEmpty then .ok surroundings.cacheHome
  else if surroundings.home.isEmpty then .error "$HOME is not defined"
  else .ok (Path.join [surroundings.home, ".cache"])

end Surroundings

end Minilang
