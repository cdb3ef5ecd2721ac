import Minilang.Text.Utf8

/-! The string encoding of class files: UTF-8 in which the zero character takes two bytes and
characters beyond the basic plane are written as a pair of surrogates of three bytes each. -/

namespace Minilang.ClassFile.ModifiedUtf8

/-- A 16-bit unit. -/
def encodeUnit (unit : Nat) : Bytes :=
  if unit ≠ 0 ∧ unit < 0x80 then [unit.toUInt8]
  else if unit < 0x800 then [(0xC0 + unit / 0x40).toUInt8, (0x80 + unit % 0x40).toUInt8]
  else [(0xE0 + unit / 0x1000).toUInt8, (0x80 + unit / 0x40 % 0x40).toUInt8,
    (0x80 + unit % 0x40).toUInt8]

/-- The units of a code point. -/
def units (code : Nat) : List Nat :=
  if code < 0x10000 then [code]
  else [0xD800 + (code - 0x10000) / 0x400, 0xDC00 + (code - 0x10000) % 0x400]

/-- Ill-formed bytes are written as the replacement character. -/
def encode (text : Bytes) : Bytes := ((Utf8.codes text).flatMap units).flatMap encodeUnit

/-- The units of an encoded text; a byte that starts no form counts as a replacement character. -/
def decodeUnits : Bytes → List Nat
  | [] => []
  | [a] => [if a < 0x80 then a.toNat else Utf8.replacement]
  | [a, b] =>
      if a < 0x80 then a.toNat :: decodeUnits [b]
      else if a &&& 0xE0 = 0xC0 then [(a &&& 0x1F).toNat * 0x40 + (b &&& 0x3F).toNat]
      else Utf8.replacement :: decodeUnits [b]
  | a :: b :: c :: rest =>
      if a < 0x80 then a.toNat :: decodeUnits (b :: c :: rest)
      else if a &&& 0xE0 = 0xC0 then
        ((a &&& 0x1F).toNat * 0x40 + (b &&& 0x3F).toNat) :: decodeUnits (c :: rest)
      else if a &&& 0xF0 = 0xE0 then
        ((a &&& 0x0F).toNat * 0x1000 + (b &&& 0x3F).toNat * 0x40 + (c &&& 0x3F).toNat) ::
          decodeUnits rest
      else Utf8.replacement :: decodeUnits (b :: c :: rest)
termination_by text => text.length

def isHigh (unit : Nat) : Bool := 0xD800 ≤ unit && unit < 0xDC00

def isLow (unit : Nat) : Bool := 0xDC00 ≤ unit && unit < 0xE000

/-- Joins surrogate pairs; a surrogate on its own becomes the replacement character. -/
def joinUnits : List Nat → List Nat
  | [] => []
  | [unit] => [if isHigh unit || isLow unit then Utf8.replacement else unit]
  | unit :: next :: rest =>
      if isHigh unit && isLow next then
        (0x10000 + (unit - 0xD800) * 0x400 + (next - 0xDC00)) :: joinUnits rest
      else
        (if isHigh unit || isLow unit then Utf8.replacement else unit) :: joinUnits (next :: rest)

def decode (bytes : Bytes) : Bytes := Utf8.ofCodes (joinUnits (decodeUnits bytes))

end Minilang.ClassFile.ModifiedUtf8
