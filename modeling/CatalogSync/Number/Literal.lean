import CatalogSync.Number.Double

/- Number literals: an optional sign, whole digits without a leading zero, then optionally a
   fraction and an exponent. A literal of whole digits that fits `-2^63 … 2^64 - 1` is an integer,
   and every other one a double. The double is formed in two roundings: of the digits those that
   fit sixty-four bits are kept, their number is rounded to a double, and that is multiplied or
   divided by the double nearest to the power of ten. -/
namespace CatalogSync

/-- A number as a literal gives it: an integer or a double, which are never mixed. -/
inductive Number where
  | int (n : Int)
  | float (x : Double)
deriving DecidableEq, Repr

/-- The parts of a number literal; `fraction` is empty when there is no decimal point. -/
structure Literal where
  negative : Bool
  whole : List Nat
  fraction : List Nat
  exponent : Option Int
deriving DecidableEq, Repr

namespace Literal

def digitValue (c : Char) : Nat := c.toNat - '0'.toNat

/-- The decimal digits at the front, and what follows them. -/
def digits (cs : List Char) : List Nat × List Char :=
  ((cs.takeWhile Char.isDigit).map digitValue, cs.dropWhile Char.isDigit)

/-- The number that a list of digits spells. -/
def ofDigits (ds : List Nat) : Nat := ds.foldl (fun n d => 10 * n + d) 0

/-- The whole digits: a single zero, or digits that do not start with one. -/
def scanWhole (cs : List Char) : Option (List Nat × List Char) :=
  match digits cs with
  | ([], _) => none
  | (0 :: _ :: _, _) => none
  | (ds, rest) => some (ds, rest)

/-- The fraction, if a decimal point follows; it has at least one digit. -/
def scanFraction : List Char → Option (List Nat × List Char)
  | '.' :: cs =>
    match digits cs with
    | ([], _) => none
    | (ds, rest) => some (ds, rest)
  | cs => some ([], cs)

def scanExponentDigits (negative : Bool) (cs : List Char) : Option (Option Int × List Char) :=
  match digits cs with
  | ([], _) => none
  | (ds, rest) => some (some (if negative then -(ofDigits ds : Int) else ofDigits ds), rest)

/-- The exponent, if `e` or `E` follows; it has an optional sign and at least one digit. -/
def scanExponent : List Char → Option (Option Int × List Char)
  | c :: cs =>
    if c = 'e' ∨ c = 'E' then
      match cs with
      | '+' :: ds => scanExponentDigits false ds
      | '-' :: ds => scanExponentDigits true ds
      | ds => scanExponentDigits false ds
    else some (none, c :: cs)
  | [] => some (none, [])

/-- The literal at the front of a text, and what follows it. -/
def scan (cs : List Char) : Option (Literal × List Char) := do
  let (negative, cs) := match cs with
    | '-' :: r => (true, r)
    | r => (false, r)
  let (whole, cs) ← scanWhole cs
  let (fraction, cs) ← scanFraction cs
  let (exponent, cs) ← scanExponent cs
  some (⟨negative, whole, fraction, exponent⟩, cs)

/-- Appends digits to a number while it fits sixty-four bits; the digits left over start with the
    first that does not fit. -/
def accumulate (n : Nat) : List Nat → Nat × List Nat
  | [] => (n, [])
  | d :: ds =>
    if 10 * n + d < 18446744073709551616 then accumulate (10 * n + d) ds else (n, d :: ds)

/-- The double nearest to a power of ten. -/
def powerOfTen? (k : Nat) : Option Double := Double.nearest? false (wholePower 10 k) 1

/-- `x * 10 ^ e`. A power beyond `10 ^ 308` is none, and one below `10 ^ -308` is divided off in
    steps of that size until nothing is left. -/
def scaleByTen? (x : Double) (e : Int) : Option Double :=
  if e.natAbs ≤ 308 then
    (powerOfTen? e.natAbs).bind fun p => if 0 ≤ e then x.mul? p else x.div? p
  else if x.isZero then some x
  else if 0 ≤ e then none
  else (powerOfTen? 308).bind fun p => (x.div? p).bind fun y => scaleByTen? y (e + 308)
termination_by e.natAbs
decreasing_by omega

/-- The value of a literal; none when it lies beyond the largest double. -/
def value? (l : Literal) : Option Number :=
  let (n, dropped) := accumulate 0 l.whole
  if dropped = [] ∧ l.fraction = [] ∧ l.exponent = none then
    if !l.negative then some (.int n)
    else if 0 < n ∧ n ≤ 9223372036854775808 then some (.int (-n))
    else (Double.nearest? true n 1).map .float
  else
    let (m, left) := accumulate n l.fraction
    let e : Int := dropped.length - (l.fraction.length - left.length : Nat) + l.exponent.getD 0
    (Double.nearest? l.negative m 1).bind fun x => (scaleByTen? x e).map .float

end Literal

end CatalogSync
