import CatalogSync.Catalog.Price

/- References that name something. Equivalence of references is symmetric, and it is reflexive on
   references with an id or a key; the same then holds of the scopes of prices. -/
namespace CatalogSync

namespace Reference

/-- The reference has an id or a key. -/
def named (r : Reference) : Bool := r.id.isSome || r.key.isSome

theorem isEquivalent_self {r : Reference} (h : r.named = true) : r.isEquivalent r = true := by
  simpa [isEquivalent, named] using h

theorem areEquivalent_self {r : Option Reference} (h : ∀ c ∈ r, c.named = true) :
    areEquivalent r r = true := by
  cases r with
  | none => rfl
  | some c => exact isEquivalent_self (h c rfl)

theorem areEquivalent_comm : ∀ a b : Option Reference, areEquivalent a b = areEquivalent b a
  | none, none => rfl
  | none, some _ => rfl
  | some _, none => rfl
  | some a, some b => isEquivalent_comm a b

end Reference

namespace Price

theorem sameScope_comm (p q : Price) : p.sameScope q = q.sameScope p := by
  unfold sameScope
  rw [Bool.beq_comm, Reference.areEquivalent_comm p.channel, @Bool.beq_comm _ _ _ p.country,
    Reference.areEquivalent_comm p.customerGroup]

theorem sameScope_self {p : Price} (hc : ∀ c ∈ p.channel, c.named = true)
    (hg : ∀ g ∈ p.customerGroup, g.named = true) : p.sameScope p = true := by
  simp [sameScope, Reference.areEquivalent_self hc, Reference.areEquivalent_self hg]

end Price

end CatalogSync
