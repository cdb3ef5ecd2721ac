import Minilang.Text.Cluster
import Minilang.Text.Ranges

/-! How many terminal columns a text takes, after the East Asian widths of Unicode 15: some code
points are two columns wide, combining ones take none, and ambiguous ones count as narrow. -/

namespace Minilang.Text

namespace Width

private def wideRows : List String := [
  "1100-115F 231A-231B 2329-232A 23E9-23EC 23F0 23F3 25FD-25FE 2614-2615 2648-2653 267F 2693 26A1",
  "26AA-26AB 26BD-26BE 26C4-26C5 26CE 26D4 26EA 26F2-26F3 26F5 26FA 26FD 2705 270A-270B 2728 274C",
  "274E 2753-2755 2757 2795-2797 27B0 27BF 2B1B-2B1C 2B50 2B55 2E80-2E99 2E9B-2EF3 2F00-2FD5",
  "2FF0-2FFB 3000-303E 3041-3096 3099-30FF 3105-312F 3131-318E 3190-31E3 31F0-321E 3220-3247",
  "3250-4DBF 4E00-A48C A490-A4C6 A960-A97C AC00-D7A3 F900-FAFF FE10-FE19 FE30-FE52 FE54-FE66",
  "FE68-FE6B FF01-FF60 FFE0-FFE6 16FE0-16FE4 16FF0-16FF1 17000-187F7 18800-18CD5 18D00-18D08",
  "1AFF0-1AFF3 1AFF5-1AFFB 1AFFD-1AFFE 1B000-1B122 1B132 1B150-1B152 1B155 1B164-1B167",
  "1B170-1B2FB 1F004 1F0CF 1F18E 1F191-1F19A 1F200-1F202 1F210-1F23B 1F240-1F248 1F250-1F251",
  "1F260-1F265 1F300-1F320 1F32D-1F335 1F337-1F37C 1F37E-1F393 1F3A0-1F3CA 1F3CF-1F3D3",
  "1F3E0-1F3F0 1F3F4 1F3F8-1F43E 1F440 1F442-1F4FC 1F4FF-1F53D 1F54B-1F54E 1F550-1F567 1F57A",
  "1F595-1F596 1F5A4 1F5FB-1F64F 1F680-1F6C5 1F6CC 1F6D0-1F6D2 1F6D5-1F6D7 1F6DC-1F6DF",
  "1F6EB-1F6EC 1F6F4-1F6FC 1F7E0-1F7EB 1F7F0 1F90C-1F93A 1F93C-1F945 1F947-1F9FF 1FA70-1FA7C",
  "1FA80-1FA88 1FA90-1FABD 1FABF-1FAC5 1FACE-1FADB 1FAE0-1FAE8 1FAF0-1FAF8 20000-2FFFD",
  "30000-3FFFD"]

private def combiningRows : List String := [
  "300-36F 483-487 488-489 7EB-7F3 C00 C04 CF3 D00-D01 135D-135F 1A7F 1AB0-1ABD 1ABE 1ABF-1ACE",
  "1B6B-1B73 1DC0-1DFF 20D0-20DC 20DD-20E0 20E1 20E2-20E4 20E5-20F0 2CEF-2CF1 2DE0-2DFF 3099-309A",
  "A66F A670-A672 A674-A67D A69E-A69F A6F0-A6F1 A8E0-A8F1 FE20-FE2F 101FD 10376-1037A 10EAB-10EAC",
  "10F46-10F50 10F82-10F85 11300-11301 1133B-1133C 11366-1136C 11370-11374 16AF0-16AF4",
  "1CF00-1CF2D 1CF30-1CF46 1D165-1D166 1D167-1D169 1D16D-1D172 1D17B-1D182 1D185-1D18B",
  "1D1AA-1D1AD 1D242-1D244 1E000-1E006 1E008-1E018 1E01B-1E021 1E023-1E024 1E026-1E02A 1E08F",
  "1E8D0-1E8D6"]

def wide : Ranges := Ranges.ofRows wideRows

def combining : Ranges := Ranges.ofRows combiningRows

private def isNarrow (code : Nat) : Bool :=
  (0x27E6 ≤ code && code ≤ 0x27ED) || code == 0x2985 || code == 0x2986

/-- Format characters that show nothing. -/
private def isInvisible (code : Nat) : Bool :=
  code == 0x70F || (0x180B ≤ code && code ≤ 0x180E) || (0x200B ≤ code && code ≤ 0x200F)
    || (0x2028 ≤ code && code ≤ 0x202E) || (0x206A ≤ code && code ≤ 0x206F)
    || (0xD800 ≤ code && code ≤ 0xDFFF) || code == 0xFEFF || (0xFFF9 ≤ code && code ≤ 0xFFFB)
    || code == 0xFFFE || code == 0xFFFF

end Width

open Width

/-- Columns of one code point: none, one or two. -/
def runeWidth (code : Nat) : Nat :=
  if code < 0x20 then 0
  else if (0x7F ≤ code && code ≤ 0x9F) || code == 0xAD then 0
  else if code < 0x300 then 1
  else if isNarrow code then 1
  else if isInvisible code || combining.contains code then 0
  else if wide.contains code then 2
  else 1

/-- A cluster is as wide as its first visible code point. -/
def clusterWidth (cluster : List Utf8.Rune) : Nat :=
  ((cluster.map fun rune => runeWidth rune.code).find? (0 < ·)).getD 0

def width (text : Bytes) : Nat :=
  (Cluster.clusters text).foldl (fun total cluster => total + clusterWidth cluster) 0

/-- As many leading clusters as fit into a number of columns. -/
def takeColumns (columns : Int) : List (List Utf8.Rune) → List (List Utf8.Rune)
  | [] => []
  | cluster :: rest =>
      if columns < clusterWidth cluster then []
      else cluster :: takeColumns (columns - clusterWidth cluster) rest

/-- Cuts a text to a width, ending it with `tail` when something was cut. -/
def truncate (text : Bytes) (columns : Nat) (tail : Bytes) : Bytes :=
  if width text ≤ columns then text
  else
    let kept := takeColumns ((columns : Int) - width tail) (Cluster.clusters text)
    kept.flatten.flatMap Utf8.Rune.bytes ++ tail

end Minilang.Text
