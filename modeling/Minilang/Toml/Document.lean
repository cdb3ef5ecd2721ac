import Minilang.Toml.Read

/-! The tables a TOML file describes. A table is opened by a header, by a dotted key or by a value
written inline. The format lets each key be given once; arrays are the exception of the reader that
is described here, which lets them be given anew. Tables and fields stand as the lines give them
(`Draft.Shows.table`, `Draft.Shows.assign`, `Draft.assign?_fresh`), and the keys are listed in the
order written. -/

namespace Minilang.Toml

inductive Node where
  | value (value : Value)
  | table (fields : List (Bytes × Node))
  /-- An array of tables. -/
  | tables (items : List (List (Bytes × Node)))
  deriving Repr

abbrev Fields := List (Bytes × Node)

def put (name : Bytes) (node : Node) : Fields → Fields
  | [] => [(name, node)]
  | (n, old) :: rest => if n = name then (n, node) :: rest else (n, old) :: put name node rest

/-- A document in the making. -/
structure Draft where
  root : Fields := []
  /-- The table that assignments go to. -/
  context : Key := []
  /-- Tables that exist without having been opened for themselves. -/
  implied : List Key := []
  /-- Keys that hold an array. -/
  arrays : List Key := []
  /-- Every key that was written, latest first. -/
  order : List Key := []

namespace Draft

/-- Changes the table at a key; of an array of tables it is the last. -/
def change (f : Fields → Option Fields) : Key → Fields → Option Fields
  | [], fields => f fields
  | name :: rest, fields => do
      match fields.lookup name with
      | some (.table inner) => return put name (.table (← change f rest inner)) fields
      | some (.tables items) =>
          let last ← change f rest (← items.getLast?)
          return put name (.tables (items.dropLast ++ [last])) fields
      | _ => none

def imply (draft : Draft) (key : Key) : Draft :=
  { draft with implied := key :: draft.implied }

def forget (draft : Draft) (key : Key) : Draft :=
  { draft with implied := draft.implied.filter (· != key) }

/-- The fields of the table at a key. -/
def fields? : Key → Fields → Option Fields
  | [], fields => some fields
  | name :: rest, fields =>
      match fields.lookup name with
      | some (.table inner) => fields? rest inner
      | some (.tables items) => items.getLast?.bind (fields? rest)
      | _ => none

/-- Gives a name in the present table its node. A name that is there already must hold an array,
which is replaced, or be an implied table, which stays and is implied no longer. -/
def assign? (draft : Draft) (name : Bytes) (node : Node) : Option Draft := do
  let key := draft.context ++ [name]
  let fields ← fields? draft.context draft.root
  let store := do
    let root ← change (fun fields => some (put name node fields)) draft.context draft.root
    some { draft with root }
  if (fields.lookup name).isNone then store
  else if draft.arrays.contains key then store.map (·.forget key)
  else if draft.implied.contains key then some (draft.forget key)
  else none

/-- Notes whether a key holds an array; an empty name stands for the present table. -/
def mark (draft : Draft) (name : Bytes) (isArray : Bool) : Draft :=
  let key := if name.isEmpty then draft.context else draft.context ++ [name]
  let key := if key.isEmpty then [[]] else key
  let others := draft.arrays.filter (· != key)
  { draft with arrays := if isArray then key :: others else others }

/-- Makes the tables above a key that are missing. -/
def parents? (draft : Draft) : Key → List Bytes → Option Draft
  | _, [] => some draft
  | above, name :: rest => do
      let key := above ++ [name]
      let fields ← fields? above draft.root
      let draft ←
        if (fields.lookup name).isSome then some draft
        else do
          let root ← change (fun fields => some (put name (.table []) fields)) above draft.root
          some ({ draft with root }.imply key)
      let _ ← fields? key draft.root
      parents? draft key rest

/-- Makes a key the present table. -/
def enter? (draft : Draft) (key : Key) (isElement : Bool) : Option Draft := do
  let name ← key.getLast?
  let above := key.dropLast
  let draft ← draft.parents? [] above
  let draft := { draft with context := above }
  let draft ←
    if isElement then do
      let root ← change (fun fields =>
        match fields.lookup name with
        | none => some (put name (.tables [[]]) fields)
        | some (.tables items) => some (put name (.tables (items ++ [[]])) fields)
        | some _ => none) above draft.root
      some { draft with root }
    else draft.assign? name (.table [])
  return { draft with context := key }

/-- Enters the tables that the first parts of a dotted key name. -/
def enterImplied? (draft : Draft) : List Bytes → Option Draft
  | [] => some draft
  | name :: rest => do
      let key := draft.context ++ [name]
      let draft ← (draft.imply key).enter? key false
      draft.enterImplied? rest

def note (draft : Draft) (key : Key) : Draft := { draft with order := key :: draft.order }

mutual

/-- Evaluates the value of a name in the present table; inline tables become tables of the
document. -/
def evaluate? (draft : Draft) (name : Bytes) (inArray : Bool) :
    Value → Option (Draft × Node × Bool)
  | .array items => do
      let draft ← evaluateItems? (draft.mark name true) name items
      return (draft, .value (.array items), true)
  | .inline fields => do
      let key := draft.context ++ [name]
      let inner ← (draft.imply key).enter? key inArray
      let inner ← evaluateFields? inner fields
      return ({ inner with context := draft.context }, .table [], false)
  | value => some (draft, .value value, false)

def evaluateItems? (draft : Draft) (name : Bytes) : List Value → Option Draft
  | [] => some draft
  | value :: rest => do
      let (draft, _) ← evaluate? draft name true value
      evaluateItems? draft name rest

def evaluateFields? (draft : Draft) : List (Key × Value) → Option Draft
  | [] => some draft
  | (key, value) :: rest => do
      let name ← key.getLast?
      let inner ← draft.enterImplied? key.dropLast
      let inner := inner.note (inner.context ++ [name])
      let (inner, node, isArray) ← evaluate? inner name false value
      let inner ← inner.assign? name node
      evaluateFields? { inner.mark name isArray with context := draft.context } rest

end

def line? (draft : Draft) : Line → Option Draft
  | .table key => do
      let draft ← draft.enter? key false
      return (draft.mark [] false).note key
  | .element key => do
      let draft ← draft.enter? key true
      return (draft.mark [] false).note key
  | .assign key value => evaluateFields? draft [(key, value)]

end Draft

/-- What a configuration file says. -/
structure Document where
  root : Fields
  /-- Every key in the order written. -/
  keys : List Key

namespace Document

/-- Reads a file; there is no document when the grammar or a key is violated. -/
def read? (text : Bytes) : Option Document := do
  let lines ← lines? text
  let draft ← lines.foldlM Draft.line? {}
  return { root := draft.root, keys := draft.order.reverse }

end Document

/-- The text of a key in messages; parts that are not plain are quoted. -/
def Key.text (key : Key) : Bytes :=
  let isBare := fun b => Bytes.isLetter b || Bytes.isDigit b || b == 95 || b == 45
  let escape : UInt8 → Bytes := fun b => match b with
    | 34 => "\\\""
    | 92 => "\\\\"
    | 8 => "\\b"
    | 9 => "\\t"
    | 10 => "\\n"
    | 12 => "\\f"
    | 13 => "\\r"
    | b => if b < 32 || b == 127 then "\\u" ++ Bytes.hexPadded 4 b.toNat else [b]
  Bytes.join "." (key.map fun part =>
    if part.isEmpty then "\"\""
    else if part.all isBare then part
    else "\"" ++ part.flatMap escape ++ "\"")

end Minilang.Toml
