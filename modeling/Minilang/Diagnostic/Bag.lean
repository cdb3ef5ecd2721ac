import Minilang.Diagnostic.Code
import Minilang.Source.Span
import Std.Data.HashSet

/-! Diagnostics and how they are collected. Every phase hands over its reports as a list; a bag
keeps the first ones up to a limit and counts the rest. A filter in front of it passes each
distinct report once. -/

namespace Minilang

structure Note where
  span : Span
  message : Bytes
  deriving DecidableEq, Repr

structure Diagnostic where
  severity : Severity
  code : Code
  message : Bytes
  span : Span
  notes : List Note := []
  deriving DecidableEq, Repr

namespace Diagnostic

def error (code : Code) (span : Span) (message : Bytes) : Diagnostic :=
  { severity := .error, code, message, span }

/-- What makes two reports the same; notes do not count. -/
structure Key where
  code : Code
  severity : Severity
  span : Span
  message : Bytes
  deriving DecidableEq, Hashable

def key (diagnostic : Diagnostic) : Key :=
  ⟨diagnostic.code, diagnostic.severity, diagnostic.span, diagnostic.message⟩

/-- File, start and stop ascending, then the more severe first, then the code. -/
def precedes (x y : Diagnostic) : Bool :=
  if x.span.file != y.span.file then x.span.file < y.span.file
  else if x.span.start != y.span.start then x.span.start < y.span.start
  else if x.span.stop != y.span.stop then x.span.stop < y.span.stop
  else if x.severity.level != y.severity.level then y.severity.level < x.severity.level
  else x.code.number ≤ y.code.number

end Diagnostic

structure Bag where
  limit : Nat
  items : Array Diagnostic := #[]
  dropped : Nat := 0

namespace Bag

/-- The most a bag can hold. -/
def ceiling : Nat := 65535

/-- A bag for at most `limit` diagnostics; limits that are not positive or too large mean the
ceiling. -/
def ofLimit (limit : Int) : Bag :=
  { limit := if 0 < limit ∧ limit ≤ ceiling then limit.toNat else ceiling }

def size (bag : Bag) : Nat := bag.items.size

def isFull (bag : Bag) : Bool := bag.items.size == bag.limit

def add (bag : Bag) (diagnostic : Diagnostic) : Bag :=
  if bag.isFull then { bag with dropped := bag.dropped + 1 }
  else { bag with items := bag.items.push diagnostic }

def addAll (bag : Bag) (reports : List Diagnostic) : Bag := reports.foldl add bag

/-- Something blocking was stored, or something was dropped unseen. -/
def hasErrors (bag : Bag) : Bool :=
  0 < bag.dropped || bag.items.any fun d => d.severity.isBlocking

/-- Stable: equal keys keep the order of their reports. -/
def sort (bag : Bag) : Bag :=
  { bag with items := (bag.items.toList.mergeSort Diagnostic.precedes).toArray }

end Bag

/-- A bag behind a filter that suppresses repeated reports. -/
structure DistinctBag where
  bag : Bag
  seen : Std.HashSet Diagnostic.Key := {}
  suppressed : Nat := 0

namespace DistinctBag

def ofLimit (limit : Int) : DistinctBag := { bag := .ofLimit limit }

def add (filter : DistinctBag) (diagnostic : Diagnostic) : DistinctBag :=
  if filter.seen.contains diagnostic.key then
    { filter with suppressed := filter.suppressed + 1 }
  else
    { filter with seen := filter.seen.insert diagnostic.key, bag := filter.bag.add diagnostic }

def addAll (filter : DistinctBag) (reports : List Diagnostic) : DistinctBag :=
  reports.foldl add filter

end DistinctBag

end Minilang
