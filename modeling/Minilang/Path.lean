import Minilang.Bytes

/-! Slash-separated paths, treated as text: cleaning, joining and relating them never looks at
a file system. -/

namespace Minilang.Path

def slash : UInt8 := 47

def isAbsolute (path : Bytes) : Bool := path.head? == some slash

/-- One component after another; `..` removes the component before it where there is one, and
at the root it vanishes. The stack is kept in reverse. -/
def cleanStep (rooted : Bool) (stack : List Bytes) (part : Bytes) : List Bytes :=
  if part = [] || part = "." then stack
  else if part = ".." then
    match stack with
    | top :: rest => if top = ".." then part :: stack else rest
    | [] => if rooted then [] else [part]
  else part :: stack

/-- The components that remain of a path once `.` and `..` are resolved. -/
def components (path : Bytes) : List Bytes :=
  ((Bytes.split slash path).foldl (cleanStep (isAbsolute path)) []).reverse

/-- The shortest equivalent path; the empty path is `.`. -/
def clean (path : Bytes) : Bytes :=
  let parts := Bytes.join "/" (components path)
  if isAbsolute path then "/" ++ parts
  else if parts.isEmpty then "."
  else parts

/-- Joins the non-empty parts and cleans the result. -/
def join (parts : List Bytes) : Bytes :=
  match parts.filter (!·.isEmpty) with
  | [] => []
  | kept => clean (Bytes.join "/" kept)

private def withoutTrailing (path : Bytes) : Bytes :=
  (path.reverse.dropWhile (· == slash)).reverse

/-- The last component. -/
def base (path : Bytes) : Bytes :=
  if path.isEmpty then "."
  else
    let kept := withoutTrailing path
    if kept.isEmpty then "/"
    else (kept.reverse.takeWhile (· != slash)).reverse

/-- Everything but the last component. -/
def dir (path : Bytes) : Bytes :=
  clean (path.reverse.dropWhile (· != slash)).reverse

/-- The extension of the last component with its dot, or nothing. -/
def ext (path : Bytes) : Bytes :=
  let name := (path.reverse.takeWhile (· != slash)).reverse
  match Bytes.findLast? 46 name with
  | some at_ => name.drop at_
  | none => []

/-- The path seen from a working directory. -/
def absolute (workingDir path : Bytes) : Bytes :=
  if isAbsolute path then clean path else join [workingDir, path]

private def dropCommon : List Bytes → List Bytes → List Bytes × List Bytes
  | x :: xs, y :: ys => if x = y then dropCommon xs ys else (x :: xs, y :: ys)
  | xs, ys => (xs, ys)

/-- How to reach `target` from `start`; there is no answer when one is absolute and the other
is not, or when `start` leaves the common part through `..`. -/
def relative? (start target : Bytes) : Option Bytes :=
  if clean start = clean target then some "."
  else if isAbsolute start != isAbsolute target then none
  else
    let (up, down) := dropCommon (components start) (components target)
    if up.head? = some ".." then none
    else some (Bytes.join "/" (List.replicate up.length (".." : Bytes) ++ down))

end Minilang.Path
