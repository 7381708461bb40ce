import CatalogSync.Sync.Kind

/- What a sync relies on in a kind of resources. The version of an entity is a field of its own: it
   is set without changing the rest, and neither the key nor the actions of a diff depend on it. A
   new entity starts at version 1 under the key of its draft. Products and channels are lawful. -/
namespace CatalogSync

namespace Kind

variable (K : Kind)

/-- The key that an entity is stored under: the empty one if it has none. -/
def storageKey (e : K.Entity) : String := (K.entityKey e).getD ""

/-- The key that the entity of a draft is stored under: the empty one if the draft has none. -/
def targetKey (d : K.Draft) : String := (K.draftKey d).getD ""

end Kind

/-- A kind with versions that stand beside the content of its entities. -/
class LawfulKind (K : Kind) where
  /-- The entity at another version, and unchanged apart from that. -/
  withVersion : K.Entity → UInt64 → K.Entity
  entityVersion_withVersion : ∀ e v, K.entityVersion (withVersion e v) = v
  withVersion_entityVersion : ∀ e, withVersion e (K.entityVersion e) = e
  withVersion_withVersion : ∀ e v w, withVersion (withVersion e v) w = withVersion e w
  bumpVersion_eq : ∀ e, K.bumpVersion e = withVersion e (K.entityVersion e + 1)
  entityKey_withVersion : ∀ e v, K.entityKey (withVersion e v) = K.entityKey e
  entityVersion_store : ∀ id d, K.entityVersion (K.store id d) = 1
  storageKey_store : ∀ id d, K.storageKey (K.store id d) = K.targetKey d
  /-- The version does not bear on the plan of an update. -/
  plan_withVersion : ∀ c e v d, K.plan c (withVersion e v) d = K.plan c e d
  /-- Nor does the size of the batches. -/
  plan_withBatchSize : ∀ c n, K.plan (c.withBatchSize n) = K.plan c
  /-- Drafts that count as equal have one key. -/
  draftKey_of_same : ∀ {a b}, K.same a b = true → K.draftKey a = K.draftKey b

namespace Kind

instance : LawfulKind product where
  withVersion p v := { p with version := v }
  entityVersion_withVersion _ _ := rfl
  withVersion_entityVersion _ := rfl
  withVersion_withVersion _ _ _ := rfl
  bumpVersion_eq _ := rfl
  entityKey_withVersion _ _ := rfl
  entityVersion_store _ _ := rfl
  storageKey_store _ _ := rfl
  plan_withVersion _ _ _ _ := rfl
  plan_withBatchSize _ _ := rfl
  draftKey_of_same := by
    intro a b h
    obtain ⟨details, _⟩ := a
    obtain ⟨details', _⟩ := b
    have same : details = details' := by
      simp only [BEq.beq, instBEqProductDraft.beq] at h
      simp_all
    exact congrArg (·.key) same

instance : LawfulKind channel where
  withVersion c v := { c with version := v }
  entityVersion_withVersion _ _ := rfl
  withVersion_entityVersion _ := rfl
  withVersion_withVersion _ _ _ := rfl
  bumpVersion_eq _ := rfl
  entityKey_withVersion _ _ := rfl
  entityVersion_store _ _ := rfl
  storageKey_store _ _ := rfl
  plan_withVersion _ _ _ _ := rfl
  plan_withBatchSize _ _ := rfl
  draftKey_of_same h := congrArg ChannelDraft.key (eq_of_beq h)

end Kind

namespace LawfulKind

variable {K : Kind} [LawfulKind K]

attribute [simp] entityVersion_withVersion withVersion_entityVersion withVersion_withVersion
  entityKey_withVersion entityVersion_store storageKey_store plan_withVersion plan_withBatchSize

@[simp] theorem storageKey_withVersion (e : K.Entity) (v : UInt64) :
    K.storageKey (withVersion e v) = K.storageKey e := by
  simp [Kind.storageKey]

@[simp] theorem entityVersion_bumpVersion (e : K.Entity) :
    K.entityVersion (K.bumpVersion e) = K.entityVersion e + 1 := by
  simp [bumpVersion_eq]

@[simp] theorem entityKey_bumpVersion (e : K.Entity) :
    K.entityKey (K.bumpVersion e) = K.entityKey e := by
  simp [bumpVersion_eq]

@[simp] theorem storageKey_bumpVersion (e : K.Entity) :
    K.storageKey (K.bumpVersion e) = K.storageKey e := by
  simp [Kind.storageKey]

/-- A version below the last one is raised by exactly one. -/
theorem toNat_entityVersion_bumpVersion {e : K.Entity}
    (room : (K.entityVersion e).toNat + 1 < UInt64.size) :
    (K.entityVersion (K.bumpVersion e)).toNat = (K.entityVersion e).toNat + 1 := by
  rw [entityVersion_bumpVersion, UInt64.toNat_add]
  exact Nat.mod_eq_of_lt room

end LawfulKind

end CatalogSync
