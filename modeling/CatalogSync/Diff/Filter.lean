import CatalogSync.Catalog.ActionGroup

/- Filters on action groups. A group that does not pass contributes no actions at all. -/
namespace CatalogSync

/-- Which action groups pass. -/
inductive Filter where
  | all
  | only (groups : SortedSet ActionGroup)
  | exclude (groups : SortedSet ActionGroup)
deriving DecidableEq, Repr, Inhabited

namespace Filter

/-- Whether actions of a group are built. -/
def passes : Filter → ActionGroup → Bool
  | .all, _ => true
  | .only groups, g => groups.contains g
  | .exclude groups, g => !groups.contains g

/-- The given actions if their group passes, and none otherwise. -/
def gate {α : Type} (f : Filter) (g : ActionGroup) (actions : List α) : List α :=
  if f.passes g then actions else []

/-- The filter of a mode and its groups; the mode `all` has no groups. -/
def ofMode? : String → Option Json → Option Filter
  | "all", none => some .all
  | "all", some .null => some .all
  | "only", some groups => (read? groups).map .only
  | "exclude", some groups => (read? groups).map .exclude
  | _, _ => none

instance : JsonForm Filter where
  write
    | .all => .obj [("mode", .str "all")]
    | .only groups => .obj [("mode", .str "only"), ("groups", write groups)]
    | .exclude groups => .obj [("mode", .str "exclude"), ("groups", write groups)]
  read?
    | .obj ms => do ofMode? (← (← ms.lookup "mode").label?) (ms.lookup "groups")
    | .arr [mode, groups] => do ofMode? (← mode.label?) (some groups)
    | _ => none

end Filter

end CatalogSync
