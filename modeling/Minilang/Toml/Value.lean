import Minilang.Text.Utf8

/-! Values of a TOML file, and how texts, numbers and times are spelled in it. A basic text stands
between quotes on one line; a backslash in it starts one of seven single characters, or `u` with
four or `U` with eight hexadecimal digits of a scalar value, and any other use of it makes the
document invalid (`Spells.decode` and `Spells.text?` say so of every text, `spells_inQuotes` of
what quoting writes). A literal text knows no escapes, a long one runs over several lines. Integers
have 64 bits; of doubles and times, whether the spelling is one is all that is kept. -/

namespace Minilang.Toml

/-- A dotted key. -/
abbrev Key := List Bytes

inductive Value where
  | text (content : Bytes)
  | integer (n : Int)
  | float
  | boolean (value : Bool)
  | time
  | array (items : List Value)
  | inline (fields : List (Key × Value))
  deriving Repr

/-- The bytes a line ends with. -/
def isLineEnd (b : UInt8) : Bool := b == 10 || b == 13

/-- The code point of hexadecimal digits, when it is a scalar value. -/
def scalar? (digits : Bytes) : Option Bytes := do
  let code ← digits.foldlM (fun n b => (Bytes.hexValue? b).map (16 * n + ·)) 0
  if (0xD800 ≤ code && code < 0xE000) || 0x110000 ≤ code then none else some (encodeScalar code)

/-- What a single character behind a backslash stands for. -/
def simpleEscape? (b : UInt8) : Option UInt8 :=
  match b with
  | 98 => some 8
  | 116 => some 9
  | 110 => some 10
  | 102 => some 12
  | 114 => some 13
  | 34 => some 34
  | 92 => some 92
  | _ => none

/-- Replaces the escapes of a text; any other use of a backslash is refused. -/
def unescape? : Nat → Bytes → Option Bytes
  | 0, _ => some []
  | _ + 1, [] => some []
  | fuel + 1, 92 :: kind :: rest =>
      let digits := if kind = 117 then 4 else if kind = 85 then 8 else 0
      if digits = 0 then do
        let first ← simpleEscape? kind
        let others ← unescape? fuel rest
        return first :: others
      else if rest.length < digits then none
      else do
        let first ← scalar? (rest.take digits)
        let others ← unescape? fuel (rest.drop digits)
        return first ++ others
  | _ + 1, [92] => none
  | fuel + 1, b :: rest => (unescape? fuel rest).map (b :: ·)

/-- The content of a text with its escapes replaced. -/
def decodeText? (raw : Bytes) : Option Bytes := unescape? (raw.length + 1) raw

/-- Splits at the closing quote of a text on one line. -/
def closeBasic? : Bytes → Bytes → Option (Bytes × Bytes)
  | [], _ => none
  | 34 :: rest, raw => some (raw.reverse, rest)
  | 92 :: b :: rest, raw =>
      if isLineEnd b then none else closeBasic? rest (b :: 92 :: raw)
  | b :: rest, raw => if isLineEnd b then none else closeBasic? rest (b :: raw)

private def closeLiteral? : Bytes → Bytes → Option (Bytes × Bytes)
  | [], _ => none
  | 39 :: rest, raw => some (raw.reverse, rest)
  | b :: rest, raw => if isLineEnd b then none else closeLiteral? rest (b :: raw)

/-- Splits at the three closing quotes of a long text. Up to two more quotes may stand in front of
them and belong to the text; a quote behind a backslash does not count. -/
private def closeLongBasic? : Bytes → Bytes → Option (Bytes × Bytes)
  | [], _ => none
  | 92 :: b :: rest, raw => closeLongBasic? rest (b :: 92 :: raw)
  | b :: rest, raw =>
      match b, rest with
      | 34, 34 :: 34 :: 34 :: _ =>
          if ([34, 34] : Bytes).isPrefixOf raw && !([34, 34, 92] : Bytes).isPrefixOf raw then none
          else closeLongBasic? rest (b :: raw)
      | 34, 34 :: 34 :: tail => some (raw.reverse, tail)
      | _, _ => closeLongBasic? rest (b :: raw)

private def closeLongLiteral? : Bytes → Bytes → Option (Bytes × Bytes)
  | [], _ => none
  | b :: rest, raw =>
      match b, rest with
      | 39, 39 :: 39 :: 39 :: _ =>
          if ([39, 39] : Bytes).isPrefixOf raw then none else closeLongLiteral? rest (b :: raw)
      | 39, 39 :: 39 :: tail => some (raw.reverse, tail)
      | _, _ => closeLongLiteral? rest (b :: raw)

private def withoutFirstLineEnd : Bytes → Bytes
  | 10 :: rest => rest
  | 13 :: 10 :: rest => rest
  | text => text

private def isSpace (b : UInt8) : Bool := b == 32 || b == 9 || isLineEnd b

/-- A backslash at the end of a line takes the white space behind it away. -/
private def joinLines : Nat → Bytes → Bytes
  | 0, text => text
  | _ + 1, [] => []
  | fuel + 1, 92 :: 92 :: rest => 92 :: 92 :: joinLines fuel rest
  | fuel + 1, 92 :: rest =>
      if (rest.takeWhile isSpace).contains 10 then joinLines fuel (rest.dropWhile isSpace)
      else 92 :: joinLines fuel rest
  | fuel + 1, b :: rest => b :: joinLines fuel rest

/-- A text on one line between quotes, and what follows. -/
def quotedText? : Bytes → Option (Bytes × Bytes)
  | 34 :: rest => do
      let (raw, rest) ← closeBasic? rest []
      return (← decodeText? raw, rest)
  | 39 :: rest => closeLiteral? rest []
  | _ => none

/-- A text of any of the four kinds. -/
def text? : Bytes → Option (Bytes × Bytes)
  | 34 :: 34 :: 34 :: rest => do
      let (raw, rest) ← closeLongBasic? rest []
      let raw := withoutFirstLineEnd raw
      return (← decodeText? (joinLines (raw.length + 1) raw), rest)
  | 39 :: 39 :: 39 :: rest => do
      let (raw, rest) ← closeLongLiteral? rest []
      return (withoutFirstLineEnd raw, rest)
  | text => quotedText? text

private def isHex (b : UInt8) : Bool := (Bytes.hexValue? b).isSome

/-- Underscores stand between digits, and the last character is one. -/
private def underscoresOk (text : Bytes) : Bool :=
  let (ok, digit) := text.foldl (fun (state : Bool × Bool) b =>
    (state.1 && (b != 95 || state.2), isHex b)) (true, false)
  ok && digit

private def unsigned (text : Bytes) : Bytes :=
  match text with
  | 43 :: rest => rest
  | 45 :: rest => rest
  | _ => text

private def valueIn? (base : Nat) (digits : Bytes) : Option Nat :=
  if digits.isEmpty then none
  else digits.foldlM (fun n b => do
    let digit ← Bytes.hexValue? b
    if digit < base then some (n * base + digit) else none) 0

private def withoutUnderscores (text : Bytes) : Bytes := text.filter (· != 95)

/-- An integer of 64 bits, in decimal or behind a prefix for another base. -/
def integer? (text : Bytes) : Option Int := do
  if !underscoresOk text then none
  let digits := withoutUnderscores text
  let magnitude : Nat ← match text, digits with
    | 48 :: 120 :: 95 :: _, _ | 48 :: 111 :: 95 :: _, _ | 48 :: 98 :: 95 :: _, _ => none
    | _, 48 :: 120 :: rest => valueIn? 16 rest
    | _, 48 :: 111 :: rest => valueIn? 8 rest
    | _, 48 :: 98 :: rest => valueIn? 2 rest
    | _, _ =>
        let plain := unsigned digits
        if 1 < plain.length && plain.head? = some 48 then none else valueIn? 10 plain
  let n : Int := if text.head? = some 45 then -(magnitude : Int) else magnitude
  if n < -9223372036854775808 || 9223372036854775808 ≤ n then none else some n

/-- Whether `digits · 10 ^ exponent` is too large for a double. -/
private def overflows (digits : Nat) (exponent : Int) : Bool :=
  let size := (Nat.toDigits 10 digits).length + exponent
  if digits = 0 || size < 300 then false
  else if 320 < size then true
  else (Nat.pow 2 1024 - Nat.pow 2 970) * Nat.pow 10 (-exponent).toNat ≤
    digits * Nat.pow 10 exponent.toNat

private def splitExponent (text : Bytes) : Bytes × Option Bytes :=
  match text.dropWhile fun b => b != 101 && b != 69 with
  | [] => (text, none)
  | _ :: exponent => (text.takeWhile fun b => b != 101 && b != 69, some exponent)

/-- Whether a text spells a double: a fraction, an exponent or both. -/
def isFloat (text : Bytes) : Bool :=
  let plain := unsigned text
  if plain = "inf" || plain = "nan" then true
  else
    let (mantissa, exponent) := splitExponent plain
    let parts := Bytes.split 46 mantissa ++ (exponent.map unsigned).toList
    let whole := parts.headD []
    let isNumber := fun (part : Bytes) =>
      underscoresOk part && part.all fun b => Bytes.isDigit b || b == 95
    let fraction := withoutUnderscores ((Bytes.split 46 mantissa).tail.flatten)
    let scale := (exponent.map fun text =>
      let size : Int := (Bytes.digitsValue (withoutUnderscores (unsigned text)) : Nat)
      if text.head? = some 45 then -size else size).getD 0
    (Bytes.split 46 mantissa).length ≤ 2 && parts.all isNumber
      && !(1 < whole.length && whole.head? = some 48)
      && !overflows (Bytes.digitsValue (withoutUnderscores whole ++ fraction))
        (scale - fraction.length)

private def field? (low high : Nat) (width : Nat) (text : Bytes) : Option Bytes :=
  let digits := text.take width
  if digits.length = width && digits.all Bytes.isDigit && low ≤ Bytes.digitsValue digits
      && Bytes.digitsValue digits ≤ high then some (text.drop width)
  else none

private def daysOf (year month : Nat) : Nat :=
  if month = 2 then
    if year % 4 = 0 && (year % 100 != 0 || year % 400 = 0) then 29 else 28
  else if [4, 6, 9, 11].contains month then 30
  else 31

private def date? (text : Bytes) : Option Bytes := do
  let rest ← field? 0 9999 4 text >>= Bytes.after? "-" >>= field? 1 12 2 >>= Bytes.after? "-"
  let month := Bytes.digitsValue ((text.drop 5).take 2)
  field? 1 (daysOf (Bytes.digitsValue (text.take 4)) month) 2 rest

private def clock? (text : Bytes) : Option Bytes := do
  let rest ← field? 0 23 2 text >>= Bytes.after? ":" >>= field? 0 59 2 >>= Bytes.after? ":"
    >>= field? 0 59 2
  match rest with
  | 46 :: b :: tail => if Bytes.isDigit b then some (tail.dropWhile Bytes.isDigit) else none
  | _ => some rest

private def zone? (text : Bytes) : Option Bytes :=
  match text with
  | 90 :: rest => some rest
  | 43 :: rest | 45 :: rest => field? 0 24 2 rest >>= Bytes.after? ":" >>= field? 0 59 2
  | _ => none

/-- Whether a text spells a date, a clock time, or both with or without a zone. -/
def isTime (text : Bytes) : Bool :=
  let text := text.map fun b => if b == 116 || b == 32 then 84 else if b == 122 then 90 else b
  let whole := date? text >>= Bytes.after? "T" >>= clock?
  whole = some [] || whole >>= zone? = some [] || date? text = some [] || clock? text = some []

end Minilang.Toml
