/-!
Decimal text of floating numbers. A number is taken apart into the exact quotient it stands for, and
every digit comes from one rounding of that quotient, in which a half goes to the even neighbour.
-/

namespace DemonBoard.Text.Decimal

/-- The exact value of a float: a quotient of naturals with a sign, or one of the special values. -/
inductive Exact where
  | finite (negative : Bool) (num den : Nat)
  | infinite (negative : Bool)
  | undefined

/-- A float is a mantissa times a power of two, the mantissa's leading bit being left out of normal numbers. -/
def exact (x : Float) : Exact :=
  let bits := x.toBits.toNat
  let negative := bits / Nat.pow 2 63 == 1
  let exponent := bits / Nat.pow 2 52 % Nat.pow 2 11
  let fraction := bits % Nat.pow 2 52
  if exponent = 2047 then
    if fraction = 0 then .infinite negative else .undefined
  else
    let mantissa := if exponent = 0 then fraction else fraction + Nat.pow 2 52
    let scale := max exponent 1
    if scale ≥ 1075 then .finite negative (mantissa * Nat.pow 2 (scale - 1075)) 1
    else .finite negative mantissa (Nat.pow 2 (1075 - scale))

/-- The natural nearest to `num / den`; a half goes to the even neighbour. -/
def nearest (num den : Nat) : Nat :=
  let q := num / den
  let twice := 2 * (num % den)
  if den < twice ∨ (den = twice ∧ q % 2 = 1) then q + 1 else q

def digits (width n : Nat) : String :=
  let s := toString n
  "".pushn '0' (width - s.length) ++ s

def sign (negative : Bool) : String := if negative then "-" else ""

def special : Exact → String
  | .infinite negative => sign negative ++ "inf"
  | _ => "nan"

def fixed (places : Nat) (x : Float) : String :=
  match exact x with
  | .finite negative num den =>
    let scaled := nearest (num * Nat.pow 10 places) den
    let whole := sign negative ++ toString (scaled / Nat.pow 10 places)
    if places = 0 then whole else whole ++ "." ++ digits places (scaled % Nat.pow 10 places)
  | other => special other

def leadingExponent (num den : Nat) : Int :=
  if den ≤ num then ((toString (num / den)).length - 1 : Nat)
  else
    let size := (toString (den / num)).length
    if den ≤ num * Nat.pow 10 (size - 1) then -((size - 1 : Nat) : Int) else -(size : Int)

/-- Scientific text with a fixed count of places, such as `2.50e+02`. Zero carries no sign. -/
def scientific (places : Nat) (x : Float) : String :=
  match exact x with
  | .finite negative num den =>
    if num = 0 then write "" 0 0
    else
      let e := leadingExponent num den
      let shift := places - e
      let scaled := nearest (num * Nat.pow 10 shift.toNat) (den * Nat.pow 10 (-shift).toNat)
      if scaled < Nat.pow 10 (places + 1) then write (sign negative) scaled e
      else write (sign negative) (Nat.pow 10 places) (e + 1)
  | other => special other
where
  write (lead : String) (scaled : Nat) (e : Int) : String :=
    let head := lead ++ toString (scaled / Nat.pow 10 places)
    let tail := if places = 0 then "" else "." ++ digits places (scaled % Nat.pow 10 places)
    head ++ tail ++ "e" ++ (if e < 0 then "-" else "+") ++ digits 2 e.natAbs

end DemonBoard.Text.Decimal
