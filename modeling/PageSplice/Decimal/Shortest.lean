import PageSplice.Decimal.Binary64
import PageSplice.Text

/-!
# Shortest decimal text of a double

The fewest digits that read back as the double; of several decimals with that many digits the
nearest, and of two equally near the greater.  They are written positionally, with a point and at
least one digit behind it.
-/

namespace PageSplice.Binary64

/-- A decimal number: digits and the power of ten they are multiplied with. -/
structure Decimal where
  digits : Nat
  power : Int
deriving DecidableEq, Repr

/-- The numbers that round to a double, as bounds over a common denominator; the bounds themselves
round to it if the mantissa is even. -/
structure Neighbourhood where
  low : Nat
  value : Nat
  high : Nat
  denominator : Nat
  closed : Bool

/-- Below a power of two the next double is only half as far as above it. -/
def neighbourhood (mantissa : Nat) (exponent : Int) : Neighbourhood :=
  let below := if mantissa = Nat.pow 2 52 ∧ leastExponent < exponent then 1 else 2
  let up := Nat.pow 2 exponent.toNat
  { low := (4 * mantissa - below) * up
    value := 4 * mantissa * up
    high := (4 * mantissa + 2) * up
    denominator := 4 * Nat.pow 2 (-exponent).toNat
    closed := mantissa % 2 = 0 }

/-- Whether `k * 10 ^ p` lies in a neighbourhood. -/
def Neighbourhood.holds (n : Neighbourhood) (k : Nat) (p : Int) : Bool :=
  let x := k * Nat.pow 10 p.toNat * n.denominator
  let ten := Nat.pow 10 (-p).toNat
  if n.closed then n.low * ten ≤ x && x ≤ n.high * ten
  else n.low * ten < x && x < n.high * ten

/-- The multiple of `10 ^ p` in a neighbourhood that is nearest to its value. -/
def Neighbourhood.nearest? (n : Neighbourhood) (p : Int) : Option Nat :=
  let num := n.value * Nat.pow 10 (-p).toNat
  let den := n.denominator * Nat.pow 10 p.toNat
  let k := num / den
  let upper := k + 1
  let upperFirst := den ≤ 2 * (num % den)
  match n.holds k p, n.holds upper p with
  | true, true => some (if upperFirst then upper else k)
  | true, false => some k
  | false, true => some upper
  | false, false => none

/-- Tries the powers of ten from `p` downwards. -/
def Neighbourhood.search (n : Neighbourhood) : Nat → Int → Decimal
  | 0, p => ⟨n.value / n.denominator, p⟩
  | fuel + 1, p =>
    match n.nearest? p with
    | some k => if k = 0 then search n fuel (p - 1) else ⟨k, p⟩
    | none => search n fuel (p - 1)

/-- The search starts above the double and goes down to its seventeenth digit. -/
def shortest (mantissa : Nat) (exponent : Int) : Decimal :=
  let n := neighbourhood mantissa exponent
  let bits : Int := Nat.log2 mantissa + exponent
  let start : Int := if 0 ≤ bits then bits / 3 + 1 else -((-bits) / 4) + 1
  n.search 420 start

/-- The digits of a decimal with the point among them. -/
def Decimal.text (d : Decimal) : Text :=
  let ds := Nat.toDigits 10 d.digits
  if 0 ≤ d.power then ds ++ List.replicate d.power.toNat '0' ++ ['.', '0']
  else
    let places := (-d.power).toNat
    let ds := List.replicate (places + 1 - ds.length) '0' ++ ds
    ds.take (ds.length - places) ++ '.' :: ds.drop (ds.length - places)

def text : Binary64 → Text
  | .nan => "NaN".toList
  | .infinite negative => (if negative then ['-'] else []) ++ "inf".toList
  | .finite negative m e =>
    (if negative then ['-'] else []) ++
      (if m = 0 then "0.0".toList else (shortest m e).text)

example : text (ofDecimal false 1 3) = "1000.0".toList := by decide +kernel
example : text (ofDecimal false 125 (-2)) = "1.25".toList := by decide +kernel
example : text (ofDecimal true 1 (-7)) = "-0.0000001".toList := by decide +kernel

end PageSplice.Binary64
