import Std.Time.DateTime.Timestamp
import Minilang.Command.Execute

/-! The program. It takes a picture of the files that a command can see, runs the command on the
picture, and then carries out what changed. It starts no other programs. -/

namespace Minilang.Picture

private def bytesOf (text : String) : Bytes := text.toUTF8.toList

private def textOf (bytes : Bytes) : String := (String.fromUTF8? bytes.toByteArray).getD ""

/-- The files and directories below a directory; a directory's path ends in a slash. -/
def below (dir : String) : IO (List (Bytes × Bytes)) := do
  let paths ← try (← IO.FS.realPath dir).walkDir catch _ => pure #[]
  let mut found := []
  for path in paths do
    if ← path.isDir then found := (bytesOf path.toString ++ [47], []) :: found
    else
      try
        found := (bytesOf path.toString, (← IO.FS.readBinFile path).toList) :: found
      catch _ => pure ()
  return found.reverse

/-- The file at a path, if it can be read. -/
def single (path : String) : IO (List (Bytes × Bytes)) := do
  try
    return [(bytesOf path, (← IO.FS.readBinFile path).toList)]
  catch _ => return []

/-- Everything that a command with these words can see. -/
def take (workingDir : String) (surroundings : Surroundings) (words : List String) :
    IO Files := do
  let here ← below workingDir
  let store ← match surroundings.cacheDir with
    | .ok dir => below (textOf (Path.join [dir, Cache.Store.userName]))
    | .error _ => pure []
  let dir := bytesOf workingDir
  let mut others := []
  for above in Project.ancestors (dir.length + 1) dir do
    others := others ++ (← single (textOf (Path.join [above, Project.manifestName])))
  for word in words do
    others := others ++ (← single (textOf (Path.absolute dir (bytesOf word))))
  return Files.addAll { workingDir := dir } ((dir ++ [47], []) :: others ++ store ++ here)

private def isGone (after : Files) (location : Location) : Bool := (after.entry? location).isNone

/-- Makes the changes of a command real: what is gone is removed, what is new or changed is
written. -/
def carryOut (before after : Files) : IO Unit := do
  let pathOf := fun (location : Location) => textOf ("/" ++ Bytes.join "/" location)
  for (location, entry) in before.entries.reverse do
    if isGone after location then
      match entry with
      | .file _ => IO.FS.removeFile (pathOf location)
      | .directory => IO.FS.removeDirAll (pathOf location)
  for (location, entry) in after.entries do
    if before.entry? location != some entry then
      match entry with
      | .file content => IO.FS.writeBinFile (pathOf location) content.toByteArray
      | .directory => IO.FS.createDirAll (pathOf location)

/-- A variable of the process, empty when it is not set. -/
def variableOf (name : String) : IO Bytes := do
  return bytesOf ((← IO.getEnv name).getD "")

/-- Runs a command line and returns its exit code. -/
def run (words : List String) : IO UInt32 := do
  let workingDir := (← IO.currentDir).toString
  let surroundings : Surroundings :=
    { cacheHome := ← variableOf "XDG_CACHE_HOME", home := ← variableOf "HOME" }
  let files ← take workingDir surroundings words
  let line := words.map bytesOf
  let input ← if Command.readsInput line then
      try pure (.ok (← (← IO.getStdin).readToEnd).toUTF8.toList)
      catch failure => pure (.error (bytesOf failure.toString))
    else pure (.ok [])
  let clock ← Std.Time.Timestamp.now
  let session : Command.Session :=
    { files, surroundings, input, now := { nanoseconds := clock.toNanosecondsSinceUnixEpoch.toInt }
      fuel := 0x1000000000000000 }
  let (code, session) := (Command.execute line).run session
  carryOut files session.files
  let out ← IO.getStdout
  out.write session.out.text.toByteArray
  out.flush
  let err ← IO.getStderr
  err.write session.err.text.toByteArray
  err.flush
  return code.number.toUInt32

end Minilang.Picture

def main (words : List String) : IO UInt32 := Minilang.Picture.run words
