import CatalogSync.Json.Form

/- References to other resources by id, by key, or by both. Drafts mostly refer by key and stored
   entities by id, so two references are compared by whatever they share: this is symmetric, but
   neither transitive nor, for a reference without id and key, reflexive. -/
namespace CatalogSync

/-- A reference by id, by key, or by both. -/
structure Reference where
  id : Option String
  key : Option String
deriving DecidableEq, Repr, Inhabited

namespace Reference

/-- The reference that names nothing. -/
def empty : Reference := ⟨none, none⟩

def ofId (id : String) : Reference := ⟨some id, none⟩

def ofKey (key : String) : Reference := ⟨none, some key⟩

def ofIdAndKey (id key : String) : Reference := ⟨some id, some key⟩

/-- Both name the same resource: their ids are equal, or else their keys are. -/
def isEquivalent (a b : Reference) : Bool :=
  (a.id.isSome && a.id == b.id) || (a.key.isSome && a.key == b.key)

/-- Equivalence of references that may be absent: an absent one is equivalent to an absent one. -/
def areEquivalent : Option Reference → Option Reference → Bool
  | none, none => true
  | some a, some b => a.isEquivalent b
  | _, _ => false

/-- Equivalence in words: a common id or a common key. -/
theorem isEquivalent_iff {a b : Reference} : a.isEquivalent b = true ↔
    (∃ i, a.id = some i ∧ b.id = some i) ∨ (∃ k, a.key = some k ∧ b.key = some k) := by
  have shared (x y : Option String) :
      (x.isSome && x == y) = true ↔ ∃ i, x = some i ∧ y = some i := by
    simp only [Bool.and_eq_true, beq_iff_eq, Option.isSome_iff_exists]
    constructor
    · rintro ⟨⟨i, hi⟩, h⟩
      exact ⟨i, hi, h ▸ hi⟩
    · rintro ⟨i, h, h'⟩
      exact ⟨⟨i, h⟩, h.trans h'.symm⟩
  simp only [isEquivalent, Bool.or_eq_true, shared]

theorem isEquivalent_comm (a b : Reference) : a.isEquivalent b = b.isEquivalent a := by
  rw [Bool.eq_iff_iff, isEquivalent_iff, isEquivalent_iff]
  constructor
  · rintro (⟨x, h, h'⟩ | ⟨x, h, h'⟩)
    · exact Or.inl ⟨x, h', h⟩
    · exact Or.inr ⟨x, h', h⟩
  · rintro (⟨x, h, h'⟩ | ⟨x, h, h'⟩)
    · exact Or.inl ⟨x, h', h⟩
    · exact Or.inr ⟨x, h', h⟩

instance : JsonForm Reference where
  write r := Json.record [("id", r.id.map write), ("key", r.key.map write)]
  read? j := do
    let ms ← j.record? ["id", "key"]
    let id ← ms.optional "id"
    let key ← ms.optional "key"
    some ⟨id, key⟩

end Reference

end CatalogSync
