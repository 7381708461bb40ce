import CatalogSync.Sync.Kind

/- Validation of a batch. A draft is rejected when it is absent, when its key is blank, and when
   keys occur more than once within it. Of equal drafts the first is kept, while distinct drafts
   that share a key are all kept. -/
namespace CatalogSync

/-- Why an entry of a batch is rejected. -/
inductive Rejection (K : Kind) where
  | absent
  | keyless (draft : K.Draft)
  | refused (draft : K.Draft) (reason : String)

namespace Rejection

variable {K : Kind}

def draft? : Rejection K → Option K.Draft
  | .absent => none
  | .keyless draft => some draft
  | .refused draft _ => some draft

def message : Rejection K → String
  | .absent => K.draftName ++ " is null."
  | .keyless draft =>
    K.draftName ++ " with name: " ++ K.displayName draft ++
      " doesn't have a key. Please make sure all " ++ K.name ++ " drafts have keys."
  | .refused _ reason => reason

end Rejection

/-- A validated batch: the accepted drafts in the order they were first seen, the set of their
    keys, and the rejections in the order of the batch. -/
structure Validated (K : Kind) where
  drafts : List K.Draft
  keys : SortedSet String
  rejected : List (Rejection K)

namespace Validated

variable {K : Kind}

def empty : Validated K := ⟨[], .empty, []⟩

def reject (v : Validated K) (r : Rejection K) : Validated K :=
  { v with rejected := v.rejected ++ [r] }

/-- Takes a draft in, unless an equal one was accepted before; its key is noted in any case. -/
def accept (v : Validated K) (draft : K.Draft) (key : String) : Validated K :=
  { v with
    drafts := if v.drafts.any (K.same draft) then v.drafts else v.drafts ++ [draft]
    keys := v.keys.insert key }

/-- Takes in the next entry of the batch. -/
def consider (v : Validated K) : Option K.Draft → Validated K
  | none => v.reject .absent
  | some draft =>
    match (K.draftKey draft).filter fun k => !isBlankText k with
    | none => v.reject (.keyless draft)
    | some key =>
      match K.refusal? draft with
      | some reason => v.reject (.refused draft reason)
      | none => v.accept draft key

end Validated

/-- Validates the entries of a batch in their order. -/
def validate (K : Kind) (batch : List (Option K.Draft)) : Validated K :=
  batch.foldl .consider .empty

end CatalogSync
