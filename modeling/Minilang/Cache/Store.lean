import Minilang.Cache.Payload
import Minilang.Compile
import Minilang.Files
import Minilang.Surroundings

/-! A store of artefacts in a directory. An entry is found by everything that shapes the
artefact: the source, the options of the generator and the name of the source. -/

namespace Minilang.Cache

/-- The layout of entries written now. -/
def schema : UInt16 := 1

/-- The digest under which an artefact is kept. -/
def key (file : SourceFile) (options : CompileOptions) : Bytes :=
  let target := (options.target.map Target.name).getD "unknown"
  Digest.sha256 (file.hash ++ "\x00schema=" ++ Bytes.dec schema.toNat ++ "\x00target=" ++ target ++
    "\x00dialect=" ++ options.dialect.name ++ "\x00class=" ++ options.className ++ "\x00name=" ++
    Path.base file.path)

structure Store where
  dir : Bytes
  deriving Repr

/-- Why an entry cannot be read. -/
inductive EntryFault where
  | file (fault : FileFault)
  | packing
  deriving DecidableEq, Repr

def EntryFault.message : EntryFault → Bytes
  | file fault => fault.message
  | packing => "msgpack: unexpected code decoding map length"

namespace Store

/-- A store in a directory, which is made when it is missing. -/
def openAt (files : Files) (dir : Bytes) : Except FileFault (Store × Files) := do
  let files ← files.mkdirAll dir
  return (⟨dir⟩, files)

/-- Entries are spread over directories by the start of their key. -/
def entryPath (store : Store) (key : Bytes) : Bytes :=
  let name := Bytes.hex key
  Path.join [store.dir, "artefacts", name.take 2, name ++ ".mp"]

def put (store : Store) (files : Files) (key : Bytes) (payload : Payload) :
    Except FileFault Files := do
  let path := store.entryPath key
  let dir := Path.dir path
  let files ← files.mkdirAll dir
  let draft := dir ++ "/tmp-"
  let files ← files.write draft payload.encode
  files.rename draft path

/-- The entry of a key; nothing when there is none. -/
def get (store : Store) (files : Files) (key : Bytes) : Except EntryFault (Option Payload) :=
  match files.read (store.entryPath key) with
  | .error fault => if fault.isNotFound then .ok none else .error (.file fault)
  | .ok packed =>
      match Payload.decode? packed with
      | some payload => .ok (some payload)
      | none => .error .packing

/-- Whether an entry has the present layout. -/
def isCurrent (payload : Payload) : Bool := payload.schema = schema

/-- Empties the store. A store that is gone stays gone. -/
def dropAll (store : Store) (files : Files) : Except FileFault Files :=
  let old := store.dir ++ ".old"
  match files.rename store.dir old with
  | .error fault => if fault.isNotFound then .ok files else .error fault
  | .ok files => (files.removeAll old).mkdirAll store.dir

private def note (name detail : Bytes) : Trace.Activity := .point .unit name detail

def targetNumber (options : CompileOptions) : UInt8 :=
  ((options.target.map Target.number).getD 0).toUInt8

/-- The kept artefact for a file and options, if it fits, and what a tracer sees of the search. -/
def find (store : Store) (files : Files) (sources : SourceSet) (file : SourceFile)
    (options : CompileOptions) : Option Compilation × List Trace.Activity :=
  let key := key file options
  match store.get files key with
  | .error fault => (none, [note "cache.corrupt" fault.message])
  | .ok none => (none, [])
  | .ok (some payload) =>
      if isCurrent payload && payload.target = targetNumber options &&
          payload.sourceHash = file.hash then
        (some
          { sources, file, bag := .ofLimit options.maxDiagnostics, target := options.target
            code := some payload.code, cached := true },
          [note "cache.hit" (Bytes.hex key)])
      else (none, [])

/-- Keeps the artefact of a compilation, if there is one. -/
def keep (store : Store) (files : Files) (options : CompileOptions) (compilation : Compilation) :
    Files × List Trace.Activity :=
  match compilation.isOk, compilation.code with
  | true, some code =>
      let file := compilation.file
      let payload : Payload :=
        { schema, target := targetNumber options, sourcePath := file.path, sourceHash := file.hash
          code }
      match store.put files (key file options) payload with
      | .ok files => (files, [])
      | .error fault => (files, [note "cache.store_failed" fault.message])
  | _, _ => (files, [])

/-- What the store's directory is called among the user's caches. -/
def userName : Bytes := "minicomp"

/-- Opens the user's store, which is made when it is missing. -/
def openUser (surroundings : Surroundings) (files : Files) : Except Bytes (Store × Files) := do
  let base ← surroundings.cacheDir
  match openAt files (Path.join [base, userName]) with
  | .ok opened => return opened
  | .error fault => throw fault.message

end Store

/-- Compiles through a store, if there is one: a kept artefact is taken as it is, a new one is
kept. What goes wrong with the store never fails the compilation. -/
def compileThrough (store : Option Store) (files : Files) (sources : SourceSet) (file : SourceFile)
    (options : CompileOptions) (cancelled : Bool) : Traced Compilation × Files :=
  match store with
  | none => (compile sources file options cancelled, files)
  | some store =>
      match store.find files sources file options with
      | (some found, searched) => ({ outcome := .ok found, activities := searched }, files)
      | (none, searched) =>
          let made := compile sources file options cancelled
          let (files, kept) := match made.outcome with
            | .ok compilation => store.keep files options compilation
            | .error _ => (files, [])
          ({ made with activities := searched ++ made.activities ++ kept }, files)

end Minilang.Cache
