/-!
# Doubles

A finite double is a sign and `mantissa * 2 ^ exponent`, where the mantissa has 53 bits unless the
exponent is the least there is.  `ofDecimal` rounds a decimal number to the nearest double, a tie to
the even mantissa.
-/

namespace PageSplice

inductive Binary64 where
  | nan
  | infinite (negative : Bool)
  | finite (negative : Bool) (mantissa : Nat) (exponent : Int)
deriving DecidableEq, Repr

namespace Binary64

def leastExponent : Int := -1074

def greatestExponent : Int := 971

/-- `n / d` rounded to the nearest integer, a tie to the even one. -/
def divNearest (n d : Nat) : Nat :=
  let q := n / d
  let r := n % d
  if 2 * r < d ∨ (2 * r = d ∧ q % 2 = 0) then q else q + 1

/-- `n / d * 2 ^ (-e)` as a quotient. -/
def scale (n d : Nat) (e : Int) : Nat × Nat :=
  if 0 ≤ e then (n, d * Nat.pow 2 e.toNat) else (n * Nat.pow 2 (-e).toNat, d)

/-- The exponent at which `n / d` has a mantissa of 53 bits, or the least exponent. -/
def exponentOf (n d : Nat) : Int :=
  let guess : Int := (Nat.log2 n : Int) - Nat.log2 d - 52
  let (a, b) := scale n d guess
  let e := if a < Nat.pow 2 52 * b then guess - 1 else guess
  max e leastExponent

def ofQuotient (negative : Bool) (n d : Nat) : Binary64 :=
  if n = 0 then .finite negative 0 leastExponent
  else
    let e := exponentOf n d
    let (a, b) := scale n d e
    let m := divNearest a b
    let (m, e) := if m = Nat.pow 2 53 then (Nat.pow 2 52, e + 1) else (m, e)
    if greatestExponent < e then .infinite negative else .finite negative m e

/-- The double nearest to `digits * 10 ^ e`.  Far outside the range of doubles the answer is known
without computing the power. -/
def ofDecimal (negative : Bool) (digits : Nat) (e : Int) : Binary64 :=
  let magnitude := e + (Nat.log2 digits / 3 : Nat)
  if digits = 0 then .finite negative 0 leastExponent
  else if 400 < e then .infinite negative
  else if magnitude < -400 then .finite negative 0 leastExponent
  else if 0 ≤ e then ofQuotient negative (digits * Nat.pow 10 e.toNat) 1
  else ofQuotient negative digits (Nat.pow 10 (-e).toNat)

example : ofDecimal false 1 0 = .finite false (2 ^ 52) (-52) := by decide
example : ofDecimal false 15 (-1) = .finite false (3 * 2 ^ 51) (-52) := by decide
example : ofDecimal true 1 400 = .infinite true := by decide +kernel

end Binary64

end PageSplice
