import Minilang.Bytes

/-! Sets of code points as ascending, disjoint ranges. Tables are written as rows of hexadecimal
ranges such as `41-5A 5F 61-7A`. -/

namespace Minilang.Text

structure Ranges where
  bounds : Array (Nat × Nat)

namespace Ranges

def hexNumber (text : String) : Nat :=
  (Bytes.ofString text).foldl (fun n b => 16 * n + (Bytes.hexValue? b).getD 0) 0

/-- The two ends of a written range; a single number is both. -/
def ends (text : String) : Nat × Nat :=
  match text.splitOn "-" with
  | [low, high] => (hexNumber low, hexNumber high)
  | _ => (hexNumber text, hexNumber text)

def ofRows (rows : List String) : Ranges :=
  ⟨(rows.flatMap fun row => (row.splitOn " ").map ends).toArray⟩

/-- Halves the candidate interval; `fuel` only needs to exceed the logarithm of the size. -/
def search (key : Nat) (table : Nat → Nat × Nat) : Nat → Nat → Nat → Option Nat
  | 0, _, _ => none
  | fuel + 1, low, high =>
      if low < high then
        let middle := (low + high) / 2
        let (first, last) := table middle
        if key < first then search key table fuel low middle
        else if last < key then search key table fuel (middle + 1) high
        else some middle
      else none

def contains (ranges : Ranges) (code : Nat) : Bool :=
  (search code (fun i => ranges.bounds.getD i (0, 0)) 64 0 ranges.bounds.size).isSome

end Ranges

end Minilang.Text
