import Minilang.Bytes

/-! Half-open byte ranges of a source file. -/

namespace Minilang

structure Span where
  file : UInt32 := 0
  start : UInt32 := 0
  stop : UInt32 := 0
  deriving DecidableEq, Hashable, Repr, Inhabited

namespace Span

def isEmpty (span : Span) : Bool := span.start == span.stop

/-- The number of bytes, modulo the word size when the ends are reversed. -/
def length (span : Span) : UInt32 := span.stop - span.start

/-- Whether `inner` lies inside; spans of different files never contain each other. -/
def contains (span inner : Span) : Bool :=
  span.file == inner.file && span.start ≤ inner.start && inner.stop ≤ span.stop

/-- The least span around both; a span of another file changes nothing. -/
def cover (span other : Span) : Span :=
  if span.file == other.file then
    { span with
      start := if other.start < span.start then other.start else span.start
      stop := if span.stop < other.stop then other.stop else span.stop }
  else span

/-- The empty span at the end. -/
def after (span : Span) : Span := { span with start := span.stop }

/-- `file:start-stop`. -/
def text (span : Span) : Bytes :=
  Bytes.dec span.file.toNat ++ ":" ++ Bytes.dec span.start.toNat ++ "-" ++
    Bytes.dec span.stop.toNat

end Span

end Minilang
