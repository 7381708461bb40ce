/- Finite double-precision numbers, given by sign, exponent field and fraction field, so that a
   number is a plain value whose equality can be decided and reasoned about. Rounding is exact
   integer arithmetic: the double nearest to a quotient of naturals, a tie going to the even
   significand. -/
namespace CatalogSync

/-- A finite double: an exponent field below 2047 and a fraction field of 52 bits. -/
structure Double where
  negative : Bool
  exponent : Fin 2047
  fraction : Fin 4503599627370496
deriving DecidableEq, Repr

/-- `num / den` rounded to a whole number, a half going to the even neighbour. -/
def roundHalfEven (num den : Nat) : Nat :=
  let q := num / den
  let r := num % den
  if 2 * r < den then q else if den < 2 * r then q + 1 else q + q % 2

/-- `base ^ e`, or one when `e` is negative. Scaling a quotient by `base ^ e` multiplies its
    numerator by `wholePower base e` and its denominator by `wholePower base (-e)`. -/
def wholePower (base : Nat) (e : Int) : Nat := Nat.pow base e.toNat

namespace Double

/-- The zero of either sign. -/
def zero (negative : Bool) : Double := ⟨negative, 0, 0⟩

def isZero (x : Double) : Bool := x.exponent = 0 && x.fraction = 0

/-- The whole number whose product with `2 ^ x.scale` is the magnitude of `x`. -/
def significand (x : Double) : Nat :=
  if x.exponent = 0 then x.fraction else 4503599627370496 + x.fraction

/-- The exponent of two that belongs to the significand; subnormal numbers share that of the least
    normal ones. -/
def scale (x : Double) : Int := (max x.exponent.val 1 : Nat) - 1075

/-- Equality of values: the two zeros are equal, all other doubles equal only themselves. -/
def same (x y : Double) : Bool := x = y || (x.isZero && y.isZero)

theorem same_refl (x : Double) : x.same x = true := by simp [same]

theorem same_symm {x y : Double} (h : x.same y = true) : y.same x = true := by
  simp only [same, Bool.or_eq_true, decide_eq_true_eq, Bool.and_eq_true] at h ⊢
  rcases h with h | h
  · exact Or.inl h.symm
  · exact Or.inr ⟨h.2, h.1⟩

theorem same_trans {x y z : Double} (h : x.same y = true) (h' : y.same z = true) :
    x.same z = true := by
  simp only [same, Bool.or_eq_true, decide_eq_true_eq, Bool.and_eq_true] at h h' ⊢
  rcases h with h | h <;> rcases h' with h' | h'
  · exact Or.inl (h.trans h')
  · exact Or.inr (h ▸ h')
  · exact Or.inr (h' ▸ h)
  · exact Or.inr ⟨h.1, h'.2⟩

/-- The double of magnitude `m * 2 ^ q`, for `m ≤ 2 ^ 53` and `m` below `2 ^ 52` only at the least
    scale `q = -1074`; none when it is too large. -/
def ofScaled? (negative : Bool) (m : Nat) (q : Int) : Option Double :=
  let field := if m < 4503599627370496 then 0
    else if m < 9007199254740992 then (q + 1075).toNat else (q + 1076).toNat
  if h : field < 2047 then
    some ⟨negative, ⟨field, h⟩, ⟨m % 4503599627370496, Nat.mod_lt _ (by decide)⟩⟩
  else none

/-- The greatest `e` with `2 ^ e ≤ num / den`, for positive `num` and `den`. -/
def binaryExponent (num den : Nat) : Int :=
  let e : Int := (Nat.log2 num : Int) - Nat.log2 den
  if num * wholePower 2 (-e) < den * wholePower 2 e then e - 1 else e

/-- The double nearest to `num / den`, a tie going to the even significand; none when the quotient
    rounds beyond the largest double. -/
def nearest? (negative : Bool) (num den : Nat) : Option Double :=
  if num = 0 then some (zero negative)
  else
    let q := max (binaryExponent num den - 52) (-1074)
    ofScaled? negative (roundHalfEven (num * wholePower 2 (-q)) (den * wholePower 2 q)) q

/-- The magnitude as a quotient of naturals. -/
def magnitude (x : Double) : Nat × Nat :=
  (x.significand * wholePower 2 x.scale, wholePower 2 (-x.scale))

/-- The rounded product of two magnitudes, with the sign of `x`. -/
def mul? (x y : Double) : Option Double :=
  nearest? x.negative (x.magnitude.1 * y.magnitude.1) (x.magnitude.2 * y.magnitude.2)

/-- The rounded quotient of two magnitudes, `y` not being zero, with the sign of `x`. -/
def div? (x y : Double) : Option Double :=
  nearest? x.negative (x.magnitude.1 * y.magnitude.2) (x.magnitude.2 * y.magnitude.1)

end Double

end CatalogSync
