import CatalogSync.Catalog.ChannelAction
import CatalogSync.Edit.Sequence

/- What actions do to a channel. -/
namespace CatalogSync.Edit

/-- The effect of an action on a channel: a removal takes every occurrence of its roles, and an
    addition appends its roles. -/
def channel : ChannelAction → Channel → Channel
  | .changeName name, c => { c with name }
  | .changeDescription description, c => { c with description }
  | .removeRoles roles, c => { c with roles := c.roles.filter fun r => !roles.contains r }
  | .addRoles roles, c => { c with roles := c.roles ++ roles }

end CatalogSync.Edit
