import TikzPress.Decimal.Reading

/-!
The shortest decimal that reads back as a given binary64 number, and its text. Of the decimals with
the fewest digits the nearest to the number is taken, and of two equally near the even one.
-/

namespace TikzPress
namespace Binary64

-- A number and the ends of the interval that rounds to it, with one denominator. The lower neighbour of a power of
-- two is nearer than the upper one.
structure Interval where
  low : Nat
  value : Nat
  high : Nat
  denominator : Nat
  closed : Bool

def interval (m : Nat) (q : Int) : Interval :=
  let below := if m = Nat.pow 2 52 ∧ minExponent < q then 1 else 2
  { low := (4 * m - below) * Nat.pow 2 q.toNat
    value := 4 * m * Nat.pow 2 q.toNat
    high := (4 * m + 2) * Nat.pow 2 q.toNat
    denominator := 4 * Nat.pow 2 (-q).toNat
    closed := m % 2 = 0 }

def Interval.has (i : Interval) (c : Nat) (x : Int) : Bool :=
  let point := c * Nat.pow 10 x.toNat * i.denominator
  let unit := Nat.pow 10 (-x).toNat
  if i.closed then i.low * unit ≤ point ∧ point ≤ i.high * unit
  else i.low * unit < point ∧ point < i.high * unit

def Interval.onGrid? (i : Interval) (x : Int) : Option Nat :=
  let n := i.value * Nat.pow 10 (-x).toNat
  let d := i.denominator * Nat.pow 10 x.toNat
  let c := n / d
  match i.has c x && c ≠ 0, i.has (c + 1) x with
  | true, true => some (roundDiv n d)
  | true, false => some c
  | false, true => some (c + 1)
  | false, false => none

def leadingExponent (i : Interval) (m : Nat) (q : Int) : Int :=
  let guess : Int := ((m.log2 : Int) + q) * 30103 / 100000
  let above := guess + 1
  if i.denominator * Nat.pow 10 above.toNat ≤ i.value * Nat.pow 10 (-above).toNat then above else guess

-- Seventeen digits always suffice.
def shortestOf (m : Nat) (q : Int) : Nat × Int :=
  let i := interval m q
  let e := leadingExponent i m q
  let grids := (List.range 17).map fun (k : Nat) => e - k
  (grids.findSome? fun x => (i.onGrid? x).map (·, x)).getD (m, q)

def dropZeros (digits : Text) (x : Int) : Text × Int :=
  let kept := (digits.reverse.dropWhile (· = '0')).reverse
  (kept, x + (digits.length - kept.length : Nat))

-- Positional when the leading digit stands for `10 ^ e` with `-5 ≤ e < 16`, always with a fraction, and otherwise
-- scientific with a signed exponent.
def layout (digits : Text) (x : Int) : Text :=
  let e := x + digits.length - 1
  if e < -5 ∨ 16 ≤ e then
    let fraction := match digits.drop 1 with
      | [] => []
      | f => '.' :: f
    digits.take 1 ++ fraction ++ 'e' :: (if e < 0 then '-' else '+') :: Text.ofNat e.natAbs
  else if e < 0 then "0.".toList ++ List.replicate (-e - 1).toNat '0' ++ digits
  else
    let whole := (e + 1).toNat
    let padded := digits ++ List.replicate (whole - digits.length) '0'
    let fraction := match padded.drop whole with
      | [] => ['0']
      | f => f
    padded.take whole ++ '.' :: fraction

def text? : Binary64 → Option Text
  | finite negative m q =>
    let shown :=
      if m = 0 then "0.0".toList
      else
        let (c, x) := shortestOf m q
        let (digits, x) := dropZeros (Text.ofNat c) x
        layout digits x
    some (if negative then '-' :: shown else shown)
  | _ => none

end Binary64
end TikzPress
