/- Statistics of a run. A tally counts records without bound; the counters that are read from it
   have sixty-four bits and wrap around. -/
namespace CatalogSync

/-- How many records were processed, created, updated and failed. -/
structure Tally where
  processed : Nat
  created : Nat
  updated : Nat
  failed : Nat
deriving DecidableEq, Repr, Inhabited

namespace Tally

def zero : Tally := ⟨0, 0, 0, 0⟩

def add (a b : Tally) : Tally :=
  ⟨a.processed + b.processed, a.created + b.created, a.updated + b.updated, a.failed + b.failed⟩

instance : Add Tally := ⟨add⟩

def ofProcessed (n : Nat) : Tally := ⟨n, 0, 0, 0⟩

def ofCreated (n : Nat) : Tally := ⟨0, n, 0, 0⟩

def ofUpdated (n : Nat) : Tally := ⟨0, 0, n, 0⟩

def ofFailed (n : Nat) : Tally := ⟨0, 0, 0, n⟩

end Tally

/-- The counters of a run. -/
structure Statistics where
  processed : UInt64
  created : UInt64
  updated : UInt64
  failed : UInt64
deriving DecidableEq, Repr, Inhabited

/-- The counters that a tally shows. -/
def Tally.statistics (t : Tally) : Statistics :=
  ⟨t.processed.toUInt64, t.created.toUInt64, t.updated.toUInt64, t.failed.toUInt64⟩

namespace Statistics

/-- Records that were processed, but neither created nor updated nor failed; each subtraction
    stops at zero. -/
def unchanged (s : Statistics) : Nat :=
  s.processed.toNat - s.created.toNat - s.updated.toNat - s.failed.toNat

/-- The summary of a run over resources with the given plural. -/
def report (plural : String) (s : Statistics) : String :=
  "Summary: " ++ toString s.processed ++ " " ++ plural ++ " were processed in total (" ++
    toString s.created ++ " created, " ++ toString s.updated ++ " updated and " ++
    toString s.failed ++ " failed to sync)."

end Statistics

end CatalogSync
