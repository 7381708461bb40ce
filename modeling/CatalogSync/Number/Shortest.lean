import CatalogSync.Number.Double

/- The decimal text of a double: the fewest digits that read back as the same double, and of the
   decimals with so many digits the nearest. Values from `1e-5` up to, but not including, `1e16`
   are written in plain notation with a fraction, the others with an exponent. -/
namespace CatalogSync

namespace Double

/-- The number of decimal digits; one for zero. -/
def digitCount (n : Nat) : Nat := (Nat.toDigits 10 n).length

/-- The greatest `e` with `10 ^ e ≤ num / den`, for positive `num` and `den`. -/
def decimalExponent (num den : Nat) : Int :=
  if den ≤ num then (digitCount (num / den) : Int) - 1
  else -(digitCount ((den - 1) / num) : Int)

/-- The reals that round to a double lie between `low / den` and `high / den` around `mid / den`;
    the ends belong to them iff `closed`. -/
structure Interval where
  low : Nat
  mid : Nat
  high : Nat
  den : Nat
  closed : Bool

/-- Below a power of two the neighbouring double is half as far as above it. -/
def interval (x : Double) : Interval :=
  let m := x.significand
  let k := x.scale - 2
  let up := wholePower 2 k
  let gap := if x.fraction.val = 0 ∧ 1 < x.exponent.val then 1 else 2
  ⟨(4 * m - gap) * up, 4 * m * up, (4 * m + 2) * up, wholePower 2 (-k), m % 2 = 0⟩

/-- Whether `c * 10 ^ u` lies in the interval. -/
def Interval.holds (i : Interval) (c : Nat) (u : Int) : Bool :=
  let v := c * wholePower 10 u * i.den
  let p := wholePower 10 (-u)
  if i.closed then i.low * p ≤ v && v ≤ i.high * p else i.low * p < v && v < i.high * p

/-- The multiple of `10 ^ u` in the interval that is nearest to its middle, a tie going to the
    even one: one of the two neighbours of the middle, if any. -/
def Interval.onGrid? (i : Interval) (u : Int) : Option Nat :=
  let num := i.mid * wholePower 10 (-u)
  let den := i.den * wholePower 10 u
  let c := num / den
  match i.holds c u, i.holds (c + 1) u with
  | true, true => some (roundHalfEven num den)
  | true, false => some c
  | false, true => some (c + 1)
  | false, false => none

/-- Drops the zeros at the end of a positive number, counting them into the exponent. -/
def dropZeros : Nat → Nat → Int → Nat × Int
  | 0, c, u => (c, u)
  | fuel + 1, c, u => if c % 10 = 0 ∧ 0 < c then dropZeros fuel (c / 10) (u + 1) else (c, u)

/-- The shortest decimal `c * 10 ^ u` that reads back as the magnitude of a double other than
    zero: seventeen digits always suffice. -/
def shortest (x : Double) : Nat × Int :=
  let i := x.interval
  let e := decimalExponent i.mid i.den
  let found := (List.range 17).findSome? fun n : Nat => (i.onGrid? (e - n)).map (·, e - (n : Int))
  let (c, u) := found.getD (i.mid / i.den, 0)
  dropZeros (digitCount c) c u

/-- Digits `ds` with the decimal point after the first `k`, padded with zeros on either side. -/
def plainText (ds : List Char) (k : Int) : String :=
  if k ≤ 0 then "0." ++ String.ofList (List.replicate (-k).toNat '0' ++ ds)
  else
    let n := k.toNat
    let whole := ds.take n ++ List.replicate (n - ds.length) '0'
    let rest := ds.drop n
    String.ofList whole ++ "." ++ (if rest.isEmpty then "0" else String.ofList rest)

/-- One digit, the point and the others if there are any, then the exponent with its sign. -/
def exponentText (ds : List Char) (e : Int) : String :=
  let rest := ds.drop 1
  String.ofList (ds.take 1) ++ (if rest.isEmpty then "" else "." ++ String.ofList rest) ++
    (if e < 0 then "e-" else "e+") ++ toString e.natAbs

/-- The text of a double. -/
def text (x : Double) : String :=
  let sign := if x.negative then "-" else ""
  if x.isZero then sign ++ "0.0"
  else
    let (c, u) := x.shortest
    let ds := Nat.toDigits 10 c
    let e : Int := (ds.length : Int) - 1 + u
    sign ++ (if -5 ≤ e ∧ e < 16 then plainText ds (e + 1) else exponentText ds e)

end Double

end CatalogSync
