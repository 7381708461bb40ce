import CatalogSync.Sync.Kind

/- Matching of drafts with the entities that are stored under their keys. When several entities
   share a key the last counts; drafts and entities without a key never match. -/
namespace CatalogSync

/-- What is to be done with a draft. -/
inductive Matched (K : Kind) where
  | create (draft : K.Draft)
  | update (existing : K.Entity) (draft : K.Draft)

/-- A draft beside the entity stored under its key, or for itself. -/
def matchDraft (K : Kind) (stored : SortedMap String K.Entity) (draft : K.Draft) : Matched K :=
  match (K.draftKey draft).bind stored.get? with
  | some existing => .update existing draft
  | none => .create draft

/-- One match for each draft, in the order of the drafts. -/
def matchDrafts (K : Kind) (existing : List K.Entity) (drafts : List K.Draft) : List (Matched K) :=
  drafts.map (matchDraft K (SortedMap.indexBy K.entityKey existing))

end CatalogSync
