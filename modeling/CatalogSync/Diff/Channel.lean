import CatalogSync.Catalog.ChannelAction
import CatalogSync.Diff.Rules

/- The channel diff: name, description, then one removal for each role that was dropped and one
   addition for each new role. -/
namespace CatalogSync.Diff

/-- The actions that lead a stored channel to its draft. -/
def channelActions (old : Channel) (new : ChannelDraft) : List ChannelAction :=
  whenChanged old.name new.name (.changeName new.name) ++
    whenChanged old.description new.description (.changeDescription new.description) ++
    setActions (· == ·) (fun r => .removeRoles [r]) (fun r => .addRoles [r]) old.roles new.roles

end CatalogSync.Diff
