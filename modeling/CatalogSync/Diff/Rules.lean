/- The two rules all diffs are made of: a field yields an action when its values differ, and an
   unordered collection yields a removal for each element that only the old side has and an
   addition for each that only the new side has. -/
namespace CatalogSync.Diff

/-- The action for a field, if its two values differ. -/
def whenChanged {α β : Type} [BEq α] (old new : α) (action : β) : List β :=
  if old == new then [] else [action]

/-- The elements of `left`, in order, to which neither an element of `right` nor one of `taken`,
    or one chosen before them, is the same. -/
def differenceFrom {α : Type} (same : α → α → Bool) (right : List α) : List α → List α → List α
  | _, [] => []
  | taken, a :: left =>
    if right.any (same a) || taken.any (same a) then differenceFrom same right taken left
    else a :: differenceFrom same right (taken ++ [a]) left

/-- The elements of `left` without a counterpart in `right`, in order and without repeats. -/
def difference {α : Type} (same : α → α → Bool) (left right : List α) : List α :=
  differenceFrom same right [] left

/-- One removal for each element that only `old` has, then one addition for each that only `new`
    has. -/
def setActions {α β : Type} (same : α → α → Bool) (remove add : α → β) (old new : List α) :
    List β :=
  (difference same old new).map remove ++ (difference same new old).map add

end CatalogSync.Diff
