import CatalogSync.Diff.Context
import CatalogSync.Sync.Error

/- The settings of a sync: how many drafts make a batch, which groups of product actions are
   built, and how the attributes of a product type are constrained. -/
namespace CatalogSync

/-- How the values of an attribute are constrained among the variants of a product. -/
inductive AttributeConstraint where
  | none
  | unique
  | combinationUnique
  /-- Every variant holds the same value. -/
  | sameForAll
deriving DecidableEq, Repr, Inhabited

namespace AttributeConstraint

def all : List AttributeConstraint := [.none, .unique, .combinationUnique, .sameForAll]

def label : AttributeConstraint → String
  | .none => "None"
  | .unique => "Unique"
  | .combinationUnique => "CombinationUnique"
  | .sameForAll => "SameForAll"

def ofLabel? (s : String) : Option AttributeConstraint := all.find? fun c => c.label == s

theorem ofLabel?_label (c : AttributeConstraint) : ofLabel? c.label = some c := by cases c <;> rfl

instance : JsonForm AttributeConstraint where
  write c := .str c.label
  read? j := j.label?.bind ofLabel?

instance : LawfulJsonForm AttributeConstraint := ⟨ofLabel?_label⟩

end AttributeConstraint

/-- The settings of a sync. -/
structure Config where
  batchSize : Nat
  filter : Filter
  attributes : SortedMap String AttributeConstraint
deriving DecidableEq, Repr

namespace Config

/-- Fifty drafts to a batch, every group of actions, and no constraint on attributes. -/
def default : Config := ⟨50, .all, .empty⟩

instance : Inhabited Config := ⟨default⟩

/-- What is wrong with the settings, if anything: a batch has to hold at least one draft. -/
def problem? (c : Config) : Option SyncError :=
  if c.batchSize = 0 then some (.invalidOptions "batch size must be greater than zero") else none

def withBatchSize (c : Config) (n : Nat) : Config := { c with batchSize := n }

def withFilter (c : Config) (f : Filter) : Config := { c with filter := f }

def withAttribute (c : Config) (name : String) (constraint : AttributeConstraint) : Config :=
  { c with attributes := c.attributes.insert name constraint }

/-- The settings of the product diff. -/
def context (c : Config) : DiffContext where
  filter := c.filter
  sameForAll := SortedSet.ofList <|
    (c.attributes.entries.filter fun e => e.2 = .sameForAll).map (·.1)

instance : JsonForm Config where
  write c := Json.record [
    ("batch_size", some (write c.batchSize)),
    ("sync_filter", some (write c.filter)),
    ("attribute_metadata", some (write c.attributes))]
  read? j := do
    let ms ← j.record? ["batch_size", "sync_filter", "attribute_metadata"]
    let batchSize ← ms.defaulted "batch_size" default.batchSize
    let filter ← ms.defaulted "sync_filter" default.filter
    let attributes ← ms.defaulted "attribute_metadata" default.attributes
    some ⟨batchSize, filter, attributes⟩

end Config

end CatalogSync
