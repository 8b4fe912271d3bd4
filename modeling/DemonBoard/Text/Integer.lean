/-!
Reading integers as a person types them: blanks around the number, a sign, and single underscores
between digits are allowed. The decimal digits of every script count.
-/

namespace DemonBoard.Text.Integer

/-- Code points of the digit zero; the digits one to nine follow each of them. -/
def zeros : List Nat :=
  [0x30, 0x660, 0x6f0, 0x7c0, 0x966, 0x9e6, 0xa66, 0xae6, 0xb66, 0xbe6, 0xc66, 0xce6, 0xd66, 0xde6,
   0xe50, 0xed0, 0xf20, 0x1040, 0x1090, 0x17e0, 0x1810, 0x1946, 0x19d0, 0x1a80, 0x1a90, 0x1b50,
   0x1bb0, 0x1c40, 0x1c50, 0xa620, 0xa8d0, 0xa900, 0xa9d0, 0xa9f0, 0xaa50, 0xabf0, 0xff10, 0x104a0,
   0x10d30, 0x11066, 0x110f0, 0x11136, 0x111d0, 0x112f0, 0x11450, 0x114d0, 0x11650, 0x116c0,
   0x11730, 0x118e0, 0x11950, 0x11c50, 0x11d50, 0x11da0, 0x11f50, 0x16a60, 0x16ac0, 0x16b50,
   0x1d7ce, 0x1d7d8, 0x1d7e2, 0x1d7ec, 0x1d7f6, 0x1e140, 0x1e2f0, 0x1e4f0, 0x1e950, 0x1fbf0]

def digit? (c : Char) : Option Nat :=
  (zeros.find? fun z => decide (z ≤ c.toNat ∧ c.toNat < z + 10)).map (c.toNat - ·)

def isBlank (c : Char) : Bool :=
  let n := c.toNat
  decide ((0x09 ≤ n ∧ n ≤ 0x0d) ∨ (0x1c ≤ n ∧ n ≤ 0x20) ∨ (0x2000 ≤ n ∧ n ≤ 0x200a)) ||
    [0x85, 0xa0, 0x1680, 0x2028, 0x2029, 0x202f, 0x205f, 0x3000].contains n

/-- Digits, of which two neighbours may have one underscore between them. -/
def magnitude? (acc : Nat) : List Char → Option Nat
  | [] => none
  | [c] => (digit? c).map (10 * acc + ·)
  | c :: '_' :: rest => (digit? c).bind fun d => magnitude? (10 * acc + d) rest
  | c :: rest => (digit? c).bind fun d => magnitude? (10 * acc + d) rest

def trim (cs : List Char) : List Char :=
  ((cs.dropWhile isBlank).reverse.dropWhile isBlank).reverse

def read? (s : String) : Option Int :=
  match trim s.toList with
  | '-' :: rest => (magnitude? 0 rest).map fun n => -(n : Int)
  | '+' :: rest => (magnitude? 0 rest).map Int.ofNat
  | cs => (magnitude? 0 cs).map Int.ofNat

example : read? " -1_000 " = some (-1000) := by decide +kernel
example : read? "1__0" = none := by decide +kernel
example : read? "_1" = none := by decide +kernel

end DemonBoard.Text.Integer
