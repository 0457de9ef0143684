/-!
The binary64 format of numbers: a sign, a whole significand and a power of two, and the rounding of
a ratio to the nearest such number. Everything is exact arithmetic on whole numbers.
-/

namespace TikzPress

-- `finite s m q` stands for `m * 2 ^ q`, negated if `s`. The significand is below `2 ^ 53`, and it is at least
-- `2 ^ 52` unless the exponent is `-1074`.
inductive Binary64 where
  | nan
  | infinite (negative : Bool)
  | finite (negative : Bool) (significand : Nat) (exponent : Int)
  deriving DecidableEq, Repr, Inhabited

namespace Binary64

def minExponent : Int := -1074

def maxExponent : Int := 971

def signedZero (negative : Bool) : Binary64 := finite negative 0 minExponent

def zero : Binary64 := signedZero false

-- A half goes to the even neighbour.
def roundDiv (n d : Nat) : Nat :=
  if 2 * (n % d) < d ∨ (2 * (n % d) = d ∧ n / d % 2 = 0) then n / d else n / d + 1

def scale (n d : Nat) (q : Int) : Nat × Nat :=
  if 0 ≤ q then (n, d * Nat.pow 2 q.toNat) else (n * Nat.pow 2 (-q).toNat, d)

-- The number nearest to `n / d`, for a positive `d`. A tie goes to the even significand, and what is beyond the
-- largest number goes to infinity.
def ofRatio (negative : Bool) (n d : Nat) : Binary64 :=
  if n = 0 then signedZero negative
  else
    let upper : Int := (n.log2 : Int) - d.log2 - 52
    let fits := let (n', d') := scale n d upper; Nat.pow 2 52 * d' ≤ n'
    let q := max minExponent (if fits then upper else upper - 1)
    let (n', d') := scale n d q
    let m := roundDiv n' d'
    let (m, q) := if m = Nat.pow 2 53 then (Nat.pow 2 52, q + 1) else (m, q)
    if maxExponent < q then infinite negative else finite negative m q

end Binary64
end TikzPress
