/-!
Quoted text. Single quotes stand around it, double ones if it holds a single and no double quote, and
what cannot be printed is written as an escape.
-/

namespace DemonBoard.Text.Quoted

/-- The control, format, separator and private characters and the noncharacters of a plane, as ranges. -/
def unprintable : List (Nat × Nat) :=
  [(0x00, 0x1f), (0x7f, 0xa0), (0xad, 0xad), (0x600, 0x605), (0x61c, 0x61c), (0x6dd, 0x6dd),
   (0x70f, 0x70f), (0x890, 0x891), (0x8e2, 0x8e2), (0x1680, 0x1680), (0x180e, 0x180e),
   (0x2000, 0x200f), (0x2028, 0x202f), (0x205f, 0x206f), (0x3000, 0x3000), (0xe000, 0xf8ff),
   (0xfdd0, 0xfdef), (0xfeff, 0xfeff), (0xfff9, 0xfffb), (0xfffe, 0xffff), (0x110bd, 0x110bd),
   (0x110cd, 0x110cd), (0x13430, 0x1343f), (0x1bca0, 0x1bca3), (0x1d173, 0x1d17a),
   (0x1fffe, 0x1ffff), (0x2fffe, 0x2ffff), (0x3fffe, 0xe00ff), (0xe01f0, 0x10ffff)]

def printable (c : Char) : Bool :=
  unprintable.all fun (first, last) => decide (c.toNat < first ∨ last < c.toNat)

def hex (width n : Nat) : String :=
  let s := String.ofList (Nat.toDigits 16 n)
  "".pushn '0' (width - s.length) ++ s

def escape (quote c : Char) : String :=
  if c = quote ∨ c = '\\' then "\\" ++ c.toString
  else if c = '\n' then "\\n"
  else if c = '\r' then "\\r"
  else if c = '\t' then "\\t"
  else if printable c then c.toString
  else if c.toNat < 0x100 then "\\x" ++ hex 2 c.toNat
  else if c.toNat < 0x10000 then "\\u" ++ hex 4 c.toNat
  else "\\U" ++ hex 8 c.toNat

def quote (s : String) : String :=
  let mark := if s.toList.contains '\'' && !s.toList.contains '"' then '"' else '\''
  mark.toString ++ String.join (s.toList.map (escape mark)) ++ mark.toString

end DemonBoard.Text.Quoted
