import CatalogSync.Sync.Event

/- Options of a sync: its settings, the severities whose events are listened to, and two hooks. A
   hook before a create may change the draft or veto it; one before an update may change the
   actions, and the update is dropped when none are left. Hooks see the world and may change it.
   -/
namespace CatalogSync

/-- Which severities have a listener. -/
structure Listeners where
  errors : Bool
  warnings : Bool
deriving DecidableEq, Repr, Inhabited

def Listeners.hear (l : Listeners) : Severity → Bool
  | .error => l.errors
  | .warning => l.warnings

/-- How a sync behaves in a world of type `σ`. -/
structure Options (K : Kind) (σ : Type) where
  config : Config
  listeners : Listeners
  beforeCreate : Option (K.Draft → σ → Option K.Draft × σ)
  beforeUpdate : Option (List K.Action → K.Draft → K.Entity → σ → List K.Action × σ)

namespace Options

variable {K : Kind} {σ : Type}

/-- Default settings, no listener and no hook. -/
def default : Options K σ := ⟨.default, ⟨false, false⟩, none, none⟩

/-- The options, unless their settings have a problem. -/
def check (o : Options K σ) : Except SyncError (Options K σ) :=
  match o.config.problem? with
  | some error => .error error
  | none => .ok o

end Options

end CatalogSync
