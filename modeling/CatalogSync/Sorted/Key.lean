/- Types of keys. Maps and sets keep their keys in strictly ascending order, so that two of them
   with the same content are the same value; for this the order has to be strict, transitive and
   total. Texts are ordered by code point. -/
namespace CatalogSync

/-- A strict linear order on the keys of maps and sets. -/
class LinearKey (κ : Type) [LT κ] : Prop where
  irrefl : ∀ a : κ, ¬ a < a
  trans : ∀ {a b c : κ}, a < b → b < c → a < c
  total : ∀ a b : κ, a < b ∨ a = b ∨ b < a

instance : LinearKey String where
  irrefl := String.lt_irrefl
  trans := String.lt_trans
  total a b := by
    by_cases h : a < b
    · exact Or.inl h
    · by_cases h' : b < a
      · exact Or.inr (Or.inr h')
      · exact Or.inr (Or.inl (String.le_antisymm (String.not_lt.1 h') (String.not_lt.1 h)))

theorem LinearKey.ne_of_lt {κ : Type} [LT κ] [LinearKey κ] {a b : κ} (h : a < b) : a ≠ b :=
  fun e => LinearKey.irrefl b (e ▸ h)

theorem LinearKey.asymm {κ : Type} [LT κ] [LinearKey κ] {a b : κ} (h : a < b) : ¬ b < a :=
  fun h' => LinearKey.irrefl a (LinearKey.trans h h')

/-- A list that ascends in an asymmetric relation is determined by its elements. -/
theorem eq_of_ascending {α : Type} {r : α → α → Prop} (asymm : ∀ {a b : α}, r a b → ¬ r b a) :
    ∀ {xs ys : List α}, xs.Pairwise r → ys.Pairwise r → (∀ a, a ∈ xs ↔ a ∈ ys) → xs = ys
  | [], [], _, _, _ => rfl
  | [], y :: ys, _, _, h => absurd ((h y).2 (List.mem_cons_self ..)) List.not_mem_nil
  | x :: xs, [], _, _, h => absurd ((h x).1 (List.mem_cons_self ..)) List.not_mem_nil
  | x :: xs, y :: ys, hx, hy, h => by
    have hx' := List.pairwise_cons.1 hx
    have hy' := List.pairwise_cons.1 hy
    -- Neither head can lie behind the other.
    have hxy : x = y := by
      rcases List.mem_cons.1 ((h x).1 (List.mem_cons_self ..)) with e | hm
      · exact e
      · rcases List.mem_cons.1 ((h y).2 (List.mem_cons_self ..)) with e | hm'
        · exact e.symm
        · exact absurd (hx'.1 y hm') (asymm (hy'.1 x hm))
    subst hxy
    have irrefl : ¬ r x x := fun hr => asymm hr hr
    rw [eq_of_ascending asymm hx'.2 hy'.2]
    intro a
    constructor
    · intro ha
      rcases List.mem_cons.1 ((h a).1 (List.mem_cons_of_mem _ ha)) with e | hm
      · exact absurd (hx'.1 a ha) (e ▸ irrefl)
      · exact hm
    · intro ha
      rcases List.mem_cons.1 ((h a).2 (List.mem_cons_of_mem _ ha)) with e | hm
      · exact absurd (hy'.1 a ha) (e ▸ irrefl)
      · exact hm

end CatalogSync
