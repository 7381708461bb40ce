import CatalogSync.Catalog.Channel

/- Update actions on channels, in the same JSON form as those on products. -/
namespace CatalogSync

/-- What an action does: its name without the fields. -/
inductive ChannelVerb where
  | changeName
  | changeDescription
  | addRoles
  | removeRoles
deriving DecidableEq, Repr, Inhabited

namespace ChannelVerb

def all : List ChannelVerb := [.changeName, .changeDescription, .addRoles, .removeRoles]

/-- The name as it is sent. -/
def label : ChannelVerb → String
  | .changeName => "changeName"
  | .changeDescription => "changeDescription"
  | .addRoles => "addRoles"
  | .removeRoles => "removeRoles"

def ofLabel? (s : String) : Option ChannelVerb := all.find? fun v => v.label == s

theorem ofLabel?_label (v : ChannelVerb) : ofLabel? v.label = some v := by cases v <;> rfl

/-- The names of the fields of an action, in their order. -/
def fieldNames : ChannelVerb → List String
  | .changeName => ["name"]
  | .changeDescription => ["description"]
  | .addRoles => ["roles"]
  | .removeRoles => ["roles"]

end ChannelVerb

/-- An instruction to change a channel. -/
inductive ChannelAction where
  | changeName (name : Option LocalizedText)
  | changeDescription (description : Option LocalizedText)
  | addRoles (roles : List ChannelRole)
  | removeRoles (roles : List ChannelRole)
deriving DecidableEq, Repr, Inhabited

namespace ChannelAction

/-- What an action does, apart from its fields. -/
def verb : ChannelAction → ChannelVerb
  | .changeName _ => .changeName
  | .changeDescription _ => .changeDescription
  | .addRoles _ => .addRoles
  | .removeRoles _ => .removeRoles

/-- The name of the action as it is sent. -/
def name (a : ChannelAction) : String := a.verb.label

/-- The fields of an action in its JSON form. -/
def fields : ChannelAction → List (String × Json)
  | .changeName name => [("name", write name)]
  | .changeDescription description => [("description", write description)]
  | .addRoles roles => [("roles", write roles)]
  | .removeRoles roles => [("roles", write roles)]

theorem map_fst_fields (a : ChannelAction) : a.fields.map (·.1) = a.verb.fieldNames := by
  cases a <;> rfl

/-- Reads the fields of an action. -/
def ofFields? (ms : Json.Members) : ChannelVerb → Option ChannelAction
  | .changeName => do some (.changeName (← ms.optional "name"))
  | .changeDescription => do some (.changeDescription (← ms.optional "description"))
  | .addRoles => do some (.addRoles (← ms.required "roles"))
  | .removeRoles => do some (.removeRoles (← ms.required "roles"))

instance : JsonForm ChannelAction where
  write a := .obj (("action", .str a.name) :: a.fields)
  read?
    | .obj ms => do
      let verb ← ChannelVerb.ofLabel? (← Json.Members.required ms "action")
      ofFields? ms verb
    | .arr (.str label :: xs) => do
      let verb ← ChannelVerb.ofLabel? label
      ofFields? (← Json.positional? verb.fieldNames xs) verb
    | _ => none

end ChannelAction

end CatalogSync
