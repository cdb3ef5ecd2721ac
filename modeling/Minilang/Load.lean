import Minilang.Compile
import Minilang.Files

/-! Sources from files and streams. -/

namespace Minilang

/-- A source set with one file of the tree in it. -/
def loadFile (files : Files) (path : Bytes) : Except CompileFault (SourceSet × SourceFile) :=
  match files.read path with
  | .ok raw => .ok (SourceSet.addLoaded {} path raw)
  | .error fault => .error (.load path fault.message)

/-- A source set with the content of a stream in it; reading the stream may fail. -/
def loadStream (name : Bytes) (content : Except Bytes Bytes) :
    Except CompileFault (SourceSet × SourceFile) :=
  match content with
  | .ok raw => .ok (SourceSet.addStream {} name raw)
  | .error reason => .error (.load name reason)

/-- A file's tokens with the reports of the scanner. -/
structure TokenizedFile where
  sources : SourceSet
  file : SourceFile
  tokens : List Token
  bag : Bag

def tokenizeFile (files : Files) (path : Bytes) (maxDiagnostics : Int) :
    Except CompileFault TokenizedFile := do
  let (sources, file) ← loadFile files path
  let (tokens, lexer) := (Lexer.ofFile file).all
  return { sources, file, tokens, bag := (Bag.ofLimit maxDiagnostics).addAll lexer.reports }

/-- A file's tree, partial when the bag has errors. -/
structure ParsedFile where
  sources : SourceSet
  file : SourceFile
  program : Program
  bag : Bag

def parseFile (files : Files) (path : Bytes) (maxDiagnostics : Int) :
    Except CompileFault ParsedFile := do
  if maxDiagnostics < 0 then throw .negativeLimit
  let (sources, file) ← loadFile files path
  let parsed := Program.parse { maxErrors := maxDiagnostics.toNat } file.tokens
  let bag := ((DistinctBag.ofLimit maxDiagnostics).addAll parsed.reports).bag.sort
  return { sources, file, program := parsed.program, bag }

end Minilang
