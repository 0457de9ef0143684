import TikzPress.Decimal.Binary64
import TikzPress.Text

/-!
Reading a decimal numeral as a binary64 number: an optional sign, then `inf`, `infinity` or `nan` in
any ASCII case, or digits with an optional point and at least one digit, then an optional exponent.
The value is the nearest number.
-/

namespace TikzPress

structure Decimal where
  negative : Bool
  coefficient : Nat
  exponent : Int
  deriving DecidableEq, Repr

namespace Decimal

def digitValue (c : Char) : Nat := c.toNat - '0'.toNat

def valueOf (digits : Text) : Nat := digits.foldl (fun n c => 10 * n + digitValue c) 0

def natural? (t : Text) : Option Nat :=
  if t ≠ [] ∧ t.all Char.isDigit then some (valueOf t) else none

def word? (t : Text) : Option Nat := (natural? t).filter (· < Nat.pow 2 64)

def sign : Text → Bool × Text
  | '-' :: t => (true, t)
  | '+' :: t => (false, t)
  | t => (false, t)

def exponent? : Text → Option Int
  | [] => some 0
  | c :: t =>
    if c = 'e' ∨ c = 'E' then
      let (negative, digits) := sign t
      (natural? digits).map fun n => if negative then -n else n
    else none

def unsigned? (negative : Bool) (t : Text) : Option Decimal :=
  let whole := t.takeWhile Char.isDigit
  let rest := t.dropWhile Char.isDigit
  let (fraction, rest) := match rest with
    | '.' :: u => (u.takeWhile Char.isDigit, u.dropWhile Char.isDigit)
    | _ => ([], rest)
  if whole = [] ∧ fraction = [] then none
  else (exponent? rest).map fun e => ⟨negative, valueOf (whole ++ fraction), e - fraction.length⟩

-- A coefficient other than zero lies between one and the power of ten above its last digit, so an exponent far
-- outside the range of the format settles the answer.
def toBinary64 (d : Decimal) : Binary64 :=
  if d.coefficient = 0 then .signedZero d.negative
  else if 310 ≤ d.exponent then .infinite d.negative
  else if (d.coefficient.log2 : Int) + 1 + 3 * d.exponent ≤ -1080 then .signedZero d.negative
  else if 0 ≤ d.exponent then .ofRatio d.negative (d.coefficient * Nat.pow 10 d.exponent.toNat) 1
  else .ofRatio d.negative d.coefficient (Nat.pow 10 (-d.exponent).toNat)

end Decimal

def Binary64.read? (t : Text) : Option Binary64 :=
  let (negative, t) := Decimal.sign t
  let name := t.map Char.toLower
  if name = "inf".toList ∨ name = "infinity".toList then some (.infinite negative)
  else if name = "nan".toList then some .nan
  else (Decimal.unsigned? negative t).map Decimal.toBinary64

end TikzPress
