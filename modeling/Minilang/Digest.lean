import Minilang.Bytes

/-! SHA-256, the content hash of sources and the address of stored artefacts. -/

namespace Minilang.Digest

private def primes : List Nat :=
  (List.range 312).filter fun n => 2 ≤ n && (List.range n).all fun d => d < 2 || n % d != 0

/-- The greatest number whose power does not exceed a bound, found bit by bit. -/
private def root (power bound : Nat) : Nat → Nat → Nat
  | 0, found => found
  | bits + 1, found =>
      let tried := found + Nat.pow 2 bits
      root power bound bits (if Nat.pow tried power ≤ bound then tried else found)

/-- The first thirty-two bits of the fractional part of a root. -/
private def fraction (power n : Nat) : UInt32 :=
  (root power (n * Nat.pow 2 (32 * power)) 40 0).toUInt32

/-- Square roots of the first eight primes. -/
private def initial : Array UInt32 := ((primes.take 8).map (fraction 2)).toArray

/-- Cube roots of the first sixty-four primes. -/
private def roundConstants : Array UInt32 := ((primes.take 64).map (fraction 3)).toArray

private def rotate (x : UInt32) (n : UInt32) : UInt32 := (x >>> n) ||| (x <<< (32 - n))

private def word (block : Array UInt8) (i : Nat) : UInt32 :=
  let byte := fun k => (block.getD (4 * i + k) 0).toUInt32
  (byte 0 <<< 24) ||| (byte 1 <<< 16) ||| (byte 2 <<< 8) ||| byte 3

/-- The sixty-four words of a block's schedule. -/
private def schedule (block : Array UInt8) : Array UInt32 :=
  (List.range 48).foldl (fun w i =>
    let at_ := fun k => w.getD (i + 16 - k) 0
    let s0 := rotate (at_ 15) 7 ^^^ rotate (at_ 15) 18 ^^^ (at_ 15 >>> 3)
    let s1 := rotate (at_ 2) 17 ^^^ rotate (at_ 2) 19 ^^^ (at_ 2 >>> 10)
    w.push (at_ 16 + s0 + at_ 7 + s1)) ((Array.range 16).map (word block))

private structure Registers where
  a : UInt32
  b : UInt32
  c : UInt32
  d : UInt32
  e : UInt32
  f : UInt32
  g : UInt32
  h : UInt32

private def Registers.round (r : Registers) (k w : UInt32) : Registers :=
  let s1 := rotate r.e 6 ^^^ rotate r.e 11 ^^^ rotate r.e 25
  let choice := (r.e &&& r.f) ^^^ ((~~~ r.e) &&& r.g)
  let t1 := r.h + s1 + choice + k + w
  let s0 := rotate r.a 2 ^^^ rotate r.a 13 ^^^ rotate r.a 22
  let majority := (r.a &&& r.b) ^^^ (r.a &&& r.c) ^^^ (r.b &&& r.c)
  { a := t1 + (s0 + majority), b := r.a, c := r.b, d := r.c, e := r.d + t1, f := r.e, g := r.f
    h := r.g }

private def compress (state : Array UInt32) (block : Array UInt8) : Array UInt32 :=
  let at_ := fun i => state.getD i 0
  let start : Registers := ⟨at_ 0, at_ 1, at_ 2, at_ 3, at_ 4, at_ 5, at_ 6, at_ 7⟩
  let w := schedule block
  let last := (List.range 64).foldl (fun r i => r.round (roundConstants.getD i 0) (w.getD i 0))
    start
  #[at_ 0 + last.a, at_ 1 + last.b, at_ 2 + last.c, at_ 3 + last.d, at_ 4 + last.e,
    at_ 5 + last.f, at_ 6 + last.g, at_ 7 + last.h]

/-- The message followed by a one bit, zeros and its length in bits, in whole blocks. -/
private def padded (message : Bytes) : Array UInt8 :=
  let length := message.length
  let zeros := (119 - length % 64) % 64
  let bits := 8 * length
  message.toArray.push 0x80 ++ Array.replicate zeros 0
    ++ ((List.range 8).map fun i => (bits / Nat.pow 2 (56 - 8 * i)).toUInt8).toArray

/-- The thirty-two bytes of the hash. -/
def sha256 (message : Bytes) : Bytes :=
  let data := padded message
  let state := (List.range (data.size / 64)).foldl
    (fun state i => compress state (data.extract (64 * i) (64 * i + 64))) initial
  state.toList.flatMap fun (x : UInt32) =>
    [(x >>> 24).toUInt8, (x >>> 16).toUInt8, (x >>> 8).toUInt8, x.toUInt8]

theorem length_sha256 (message : Bytes) : (sha256 message).length = 32 := by
  have words : ∀ (blocks : List Nat) (state : Array UInt32), state.size = 8 →
      (blocks.foldl (fun state i =>
        compress state ((padded message).extract (64 * i) (64 * i + 64))) state).size = 8 := by
    intro blocks
    induction blocks with
    | nil => exact fun _ => id
    | cons i rest ih => exact fun _ _ => ih _ rfl
  have started : initial.size = 8 := by decide +kernel
  have last := words (List.range ((padded message).size / 64)) initial started
  have bytes : ∀ words : List UInt32, (words.flatMap fun (x : UInt32) =>
      [(x >>> 24).toUInt8, (x >>> 16).toUInt8, (x >>> 8).toUInt8, x.toUInt8]).length =
      4 * words.length := by
    intro words
    induction words with
    | nil => rfl
    | cons x rest ih =>
      rw [List.flatMap_cons, List.length_append, ih, List.length_cons]
      simp only [List.length_cons, List.length_nil]
      omega
  rw [sha256, bytes, Array.length_toList, last]

end Minilang.Digest
