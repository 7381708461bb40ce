import CatalogSync.Sync.Run

/- The records of a batch side by side. The records of a batch are started together, and each waits
   for the service at every one of its calls; while it waits, others go on. What a record does from
   the answer to one call up to the next call is never interrupted, and a call takes effect at one
   moment. A `Phase` says where a record stands, `step` takes it on by one such piece or one call,
   and a schedule says which record goes on next, so `runOn` is a run in any order that the answers
   may come in. A service that never keeps a record waiting takes every record to its end before the
   next one starts; that is the schedule `inTurn`, and what `run` does. -/
namespace CatalogSync

/-- Where a record stands. A call that has been made and an answer that has not been looked at yet
    are phases of their own. -/
inductive Phase (K : Kind) where
  /-- Nothing has been done. -/
  | ready (record : Matched K)
  | creating (draft : K.Draft)
  | created (draft : K.Draft) (answer : Except SyncError K.Entity)
  /-- The first try of an update, or the last one. -/
  | updating (last : Bool) (existing : K.Entity) (draft : K.Draft) (actions : List K.Action)
  | updated (last : Bool) (existing : K.Entity) (draft : K.Draft) (actions : List K.Action)
      (answer : Except SyncError K.Entity)
  | fetching (stale : K.Entity) (draft : K.Draft)
  | fetched (stale : K.Entity) (draft : K.Draft) (answer : Except SyncError (Option K.Entity))
  | finished

/-- How many steps are left at most. -/
def Phase.left {K : Kind} : Phase K → Nat
  | ready _ => 7
  | updating false .. => 6
  | updated false .. => 5
  | fetching .. => 4
  | fetched .. => 3
  | creating _ => 2
  | updating true .. => 2
  | created .. => 1
  | updated true .. => 1
  | finished => 0

/-- For every batch, which of its records goes on next, step by step, as long as it says. -/
def Schedule : Type := Nat → List Nat

/-- A record on its way: where it stands, and what it has counted and done so far. -/
structure Task (K : Kind) where
  record : Matched K
  phase : Phase K
  tally : Tally
  journal : List (Entry K)

/-- The records of a batch on their way, and what they have left behind together. -/
structure Pool (K : Kind) (σ : Type) where
  tasks : List (Task K)
  outcome : Outcome K σ

/-- The records of a batch before their first step. -/
def Pool.start {K : Kind} {σ : Type} (records : List (Matched K)) (w : σ) : Pool K σ :=
  ⟨records.map fun m => ⟨m, .ready m, .zero, []⟩, .idle w⟩

namespace Sync

variable {K : Kind} {σ : Type} (service : Service K σ) (options : Options K σ)

/-! ### The steps of a record -/

/-- Finds the draft to create; without a veto, a create call is made. -/
def startCreate (draft : K.Draft) (w : σ) : Outcome K σ × Phase K :=
  match draftToCreate options draft w with
  | (none, o) => (o, .finished)
  | (some draft, o) => (o, .creating draft)

/-- Finds the actions to send; if there are any, an update call is made. -/
def startUpdate (last : Bool) (existing : K.Entity) (draft : K.Draft) (w : σ) :
    Outcome K σ × Phase K :=
  match actionsToSend options existing draft w with
  | ([], o) => (o, .finished)
  | (actions, o) => (o, .updating last existing draft actions)

/-- Looks at the answer to a create call. -/
def endCreate (draft : K.Draft) (w : σ) : Except SyncError K.Entity → Outcome K σ × Phase K
  | .ok _ => (⟨w, .ofCreated 1, []⟩, .finished)
  | .error error => (⟨w, .ofFailed 1, [.event (.createFailed draft error)]⟩, .finished)

/-- Looks at the answer to an update call; after the first one, a concurrent modification leads to a
    fetch. -/
def endUpdate (last : Bool) (existing : K.Entity) (draft : K.Draft) (actions : List K.Action)
    (w : σ) : Except SyncError K.Entity → Outcome K σ × Phase K
  | .ok _ => (⟨w, .ofUpdated 1, []⟩, .finished)
  | .error error =>
    if !last && error.isConcurrentModification then (.idle w, .fetching existing draft)
    else (failUpdate existing draft actions error w, .finished)

/-- Looks at the answer to a fetch; an entity is tried once more. -/
def endFetch (stale : K.Entity) (draft : K.Draft) (w : σ) :
    Except SyncError (Option K.Entity) → Outcome K σ × Phase K
  | .error error => (⟨w, .ofFailed 1, [.event (.retryFetchFailed stale draft error)]⟩, .finished)
  | .ok none => (⟨w, .ofFailed 1, [.event (.retryNotFound stale draft)]⟩, .finished)
  | .ok (some fetched) => startUpdate options true fetched draft w

/-- Takes a record on to its next phase: a call takes effect, or what comes after an answer is done
    up to the next call. -/
def step : Phase K → σ → Outcome K σ × Phase K
  | .ready (.create draft), w => startCreate options draft w
  | .ready (.update existing draft), w => startUpdate options false existing draft w
  | .creating draft, w =>
    let (answer, w) := service.create draft w
    (⟨w, .zero, [.create draft answer]⟩, .created draft answer)
  | .created draft answer, w => endCreate draft w answer
  | .updating last existing draft actions, w =>
    let (answer, w) := service.update existing actions w
    (⟨w, .zero, [.update existing actions answer]⟩, .updated last existing draft actions answer)
  | .updated last existing draft actions answer, w =>
    endUpdate last existing draft actions w answer
  | .fetching stale draft, w =>
    let key := (K.draftKey draft).getD ""
    let (answer, w) := service.fetchByKey key w
    (⟨w, .zero, [.fetchByKey key answer]⟩, .fetched stale draft answer)
  | .fetched stale draft answer, w => endFetch options stale draft w answer
  | .finished, w => (.idle w, .finished)

/-! ### Batches -/

/-- Takes on the record at a place; if there is none, nothing happens. -/
def advance (p : Pool K σ) (place : Nat) : Pool K σ :=
  match p.tasks[place]? with
  | none => p
  | some task =>
    let (o, phase) := step service options task.phase p.outcome.world
    ⟨p.tasks.set place ⟨task.record, phase, task.tally + o.tally, task.journal ++ o.journal⟩,
      p.outcome.andThen fun _ => o⟩

/-- Every one of `n` records gets as many steps as a record can take, one record after the other. -/
def turns (n : Nat) : List Nat := (List.range n).flatMap fun place => List.replicate 7 place

/-- The records of a batch at their ends: they go on in the order of `picks`, and what is left to do
    then is done in turn. -/
def interleave (picks : List Nat) (records : List (Matched K)) (w : σ) : Pool K σ :=
  (picks ++ turns records.length).foldl (advance service options) (Pool.start records w)

/-- The records of a validated batch. -/
def recordsOn (picks : List Nat) (v : Validated K) (w : σ) : Outcome K σ :=
  match service.fetchMatching v.keys w with
  | (.error error, w) =>
    ⟨w, .ofFailed v.keys.size,
      [.fetchMatching v.keys (.error error), .event (.fetchFailed v.keys error)]⟩
  | (.ok existing, w) =>
    Outcome.andThen ⟨w, .zero, [.fetchMatching v.keys (.ok existing)]⟩ fun w =>
      (interleave service options picks (matchDrafts K existing v.drafts) w).outcome

/-- A batch: the rejections are reported first, before any record starts. -/
def batchOn (picks : List Nat) (drafts : List (Option K.Draft)) (w : σ) : Outcome K σ :=
  let v := validate K drafts
  Outcome.andThen ⟨w, .ofProcessed drafts.length, v.rejected.map fun r => .event (.rejected r)⟩
    (if v.drafts.isEmpty then .idle else recordsOn service options picks v)

/-- Syncs a list of drafts: a batch starts when the one before it has ended, and its records go on
    as the schedule says. -/
def runOn (schedule : Schedule) (drafts : List (Option K.Draft)) (w : σ) : Outcome K σ :=
  Outcome.sequence (fun piece => batchOn service options (schedule piece.2) piece.1)
    (pieces options.config.batchSize drafts).zipIdx w

end Sync

end CatalogSync
