import CatalogSync.Sync.Kind

/- Services hold the stored entities of a kind. Every call may change the world that the service
   lives in, and it may fail. Nothing is assumed of the answers. -/
namespace CatalogSync

/-- A service for entities of kind `K` in a world of type `σ`. -/
structure Service (K : Kind) (σ : Type) where
  /-- The stored entities with the given keys. -/
  fetchMatching : SortedSet String → σ → Except SyncError (List K.Entity) × σ
  /-- The stored entity with a key, if there is one. -/
  fetchByKey : String → σ → Except SyncError (Option K.Entity) × σ
  create : K.Draft → σ → Except SyncError K.Entity × σ
  /-- Applies a list of actions to an entity as it was read. -/
  update : K.Entity → List K.Action → σ → Except SyncError K.Entity × σ

/-- The same service beside a further part of the world that it does not touch. -/
def Service.beside {K : Kind} {σ : Type} (τ : Type) (s : Service K σ) : Service K (σ × τ) where
  fetchMatching keys w := let (r, x) := s.fetchMatching keys w.1; (r, x, w.2)
  fetchByKey key w := let (r, x) := s.fetchByKey key w.1; (r, x, w.2)
  create draft w := let (r, x) := s.create draft w.1; (r, x, w.2)
  update entity actions w := let (r, x) := s.update entity actions w.1; (r, x, w.2)

end CatalogSync
