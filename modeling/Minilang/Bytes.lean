/-! Byte strings. Source files, artefacts and tool output may hold any bytes, so every text of
the compiler is a list of bytes; string literals stand for their UTF-8 encoding. -/

namespace Minilang

abbrev Bytes := List UInt8

/-- The UTF-8 encoding of a code point; one outside the scalar values encodes the replacement
character U+FFFD. -/
def encodeScalar (code : Nat) : Bytes :=
  if code < 0x80 then [code.toUInt8]
  else if code < 0x800 then [(0xC0 + code / 0x40).toUInt8, (0x80 + code % 0x40).toUInt8]
  else if (0xD800 ≤ code ∧ code < 0xE000) ∨ 0x110000 ≤ code then [0xEF, 0xBF, 0xBD]
  else if code < 0x10000 then
    [(0xE0 + code / 0x1000).toUInt8, (0x80 + code / 0x40 % 0x40).toUInt8,
      (0x80 + code % 0x40).toUInt8]
  else
    [(0xF0 + code / 0x40000).toUInt8, (0x80 + code / 0x1000 % 0x40).toUInt8,
      (0x80 + code / 0x40 % 0x40).toUInt8, (0x80 + code % 0x40).toUInt8]

namespace Bytes

def ofString (text : String) : Bytes := text.toList.flatMap fun c => encodeScalar c.toNat

instance : Coe String Bytes := ⟨ofString⟩

/-- The byte of an ASCII character. -/
def code (c : Char) : UInt8 := c.toNat.toUInt8

/-- A natural number in decimal. -/
def dec (n : Nat) : Bytes := (Nat.toDigits 10 n).map code

/-- An integer in decimal, with a sign only when it is negative. -/
def int : Int → Bytes
  | .ofNat n => dec n
  | .negSucc n => code '-' :: dec (n + 1)

def hexDigit (n : Nat) : UInt8 := if n < 10 then (48 + n).toUInt8 else (87 + n).toUInt8

/-- The low `width` hexadecimal digits of a number, lower case. -/
def hexPadded : Nat → Nat → Bytes
  | 0, _ => []
  | width + 1, n => hexPadded width (n / 16) ++ [hexDigit (n % 16)]

/-- Two lower-case hexadecimal digits for each byte. -/
def hex (bytes : Bytes) : Bytes :=
  bytes.flatMap fun b => [hexDigit (b.toNat / 16), hexDigit (b.toNat % 16)]

def fill (count : Nat) (byte : UInt8) : Bytes := List.replicate count byte

def spaces (count : Nat) : Bytes := fill count 32

def padLeft (width : Nat) (text : Bytes) : Bytes := spaces (width - text.length) ++ text

def padRight (width : Nat) (text : Bytes) : Bytes := text ++ spaces (width - text.length)

/-- A number in decimal with leading zeros up to the given width. -/
def decPadded (width n : Nat) : Bytes :=
  let digits := dec n
  fill (width - digits.length) 48 ++ digits

def startsWith (text start : Bytes) : Bool := start.isPrefixOf text

def endsWith (text tail : Bytes) : Bool := tail.isSuffixOf text

/-- What follows `start`, when the text begins with it. -/
def after? : (start text : Bytes) → Option Bytes
  | [], text => some text
  | _ :: _, [] => none
  | a :: start, b :: text => if a = b then after? start text else none

/-- What precedes `tail`, when the text ends with it. -/
def before? (tail text : Bytes) : Option Bytes :=
  if tail.isSuffixOf text then some (text.take (text.length - tail.length)) else none

def withoutStart (start text : Bytes) : Bytes := (after? start text).getD text

def withoutEnd (tail text : Bytes) : Bytes := (before? tail text).getD text

/-- The text around the first occurrence of a byte. -/
def cut? (byte : UInt8) (text : Bytes) : Option (Bytes × Bytes) :=
  match text.dropWhile (· != byte) with
  | [] => none
  | _ :: rest => some (text.takeWhile (· != byte), rest)

def splitLoop (byte : UInt8) : Bytes → Bytes → List Bytes → List Bytes
  | [], piece, done => (piece.reverse :: done).reverse
  | b :: rest, piece, done =>
      if b = byte then splitLoop byte rest [] (piece.reverse :: done)
      else splitLoop byte rest (b :: piece) done

/-- The pieces between the occurrences of a byte; a text without it is one piece. -/
def split (byte : UInt8) (text : Bytes) : List Bytes := splitLoop byte text [] []

def findLoop (pattern : Bytes) : Bytes → Nat → Option Nat
  | [], at_ => if pattern.isEmpty then some at_ else none
  | b :: rest, at_ =>
      if pattern.isPrefixOf (b :: rest) then some at_ else findLoop pattern rest (at_ + 1)

/-- The offset of the first occurrence of a pattern. -/
def find? (pattern text : Bytes) : Option Nat := findLoop pattern text 0

def hasPart (text pattern : Bytes) : Bool := (find? pattern text).isSome

/-- The offset of the last occurrence of a byte. -/
def findLast? (byte : UInt8) (text : Bytes) : Option Nat :=
  (text.foldl (fun (state : Nat × Option Nat) b =>
    (state.1 + 1, if b = byte then some state.1 else state.2)) (0, none)).2

/-- The text, or nothing when the condition fails. -/
def onlyIf (condition : Bool) (text : Bytes) : Bytes := if condition then text else []

def join (separator : Bytes) : List Bytes → Bytes
  | [] => []
  | first :: rest => first ++ rest.flatMap (separator ++ ·)

private def replaceLoop (pattern replacement : Bytes) : Nat → Bytes → Bytes → Bytes
  | 0, text, done => done.reverse ++ text
  | _ + 1, [], done => done.reverse
  | fuel + 1, b :: rest, done =>
      match after? pattern (b :: rest) with
      | some tail => replaceLoop pattern replacement fuel tail (replacement.reverse ++ done)
      | none => replaceLoop pattern replacement fuel rest (b :: done)

/-- Replaces every occurrence of a non-empty pattern, from left to right. -/
def replace (pattern replacement text : Bytes) : Bytes :=
  replaceLoop pattern replacement text.length text []

def isDigit (b : UInt8) : Bool := 48 ≤ b && b ≤ 57

def isLower (b : UInt8) : Bool := 97 ≤ b && b ≤ 122

def isUpper (b : UInt8) : Bool := 65 ≤ b && b ≤ 90

def isLetter (b : UInt8) : Bool := isLower b || isUpper b

/-- The value of a run of decimal digits. -/
def digitsValue (digits : Bytes) : Nat := digits.foldl (fun n b => 10 * n + (b.toNat - 48)) 0

/-- The value of a hexadecimal digit of either case. -/
def hexValue? (b : UInt8) : Option Nat :=
  if isDigit b then some (b.toNat - 48)
  else if 97 ≤ b && b ≤ 102 then some (b.toNat - 87)
  else if 65 ≤ b && b ≤ 70 then some (b.toNat - 55)
  else none

/-- The bytes that hexadecimal digits spell, two for each; other characters count as zero. -/
def ofHex : Bytes → Bytes
  | high :: low :: rest =>
      (16 * (hexValue? high).getD 0 + (hexValue? low).getD 0).toUInt8 :: ofHex rest
  | _ => []

/-- Lexicographic order on bytes. -/
def before (x y : Bytes) : Bool := decide (x < y)

end Bytes

end Minilang
