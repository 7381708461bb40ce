/- The outcome of a diff: the actions that lead from the stored entity to the draft, and the
   issues that made a part of the diff impossible. Issues stand beside the actions and do not
   cancel them. -/
namespace CatalogSync

/-- Why actions on variants could not be built, or not all of them. -/
inductive VariantProblem where
  | nullVariant
  | blankVariantKey
  | blankOldMasterKey
  | blankNewMasterKey
  | blankNewMasterSku
deriving DecidableEq, Repr, Inhabited

namespace VariantProblem

def label : VariantProblem → String
  | .nullVariant => "NullVariant"
  | .blankVariantKey => "BlankVariantKey"
  | .blankOldMasterKey => "BlankOldMasterKey"
  | .blankNewMasterKey => "BlankNewMasterKey"
  | .blankNewMasterSku => "BlankNewMasterSku"

def message : VariantProblem → String
  | .nullVariant => "The variant is null."
  | .blankVariantKey => "The variant key is blank."
  | .blankOldMasterKey => "Old master variant key is blank."
  | .blankNewMasterKey => "New master variant null or has blank key."
  | .blankNewMasterSku => "New master variant has blank SKU."

end VariantProblem

/-- A problem met while diffing the product of a draft with the given key. -/
structure Issue where
  productKey : String
  problem : VariantProblem
deriving DecidableEq, Repr, Inhabited

def Issue.message (i : Issue) : String :=
  "Failed to build variants update actions on the product with key '" ++ i.productKey ++
    "'. Reason: " ++ i.problem.message

/-- Actions in the order they are to be applied, with the issues met on the way. -/
structure Plan (α : Type) where
  actions : List α
  issues : List Issue
deriving BEq, Repr, Inhabited

/-- A plan without issues. -/
def Plan.clean {α : Type} (actions : List α) : Plan α := ⟨actions, []⟩

end CatalogSync
