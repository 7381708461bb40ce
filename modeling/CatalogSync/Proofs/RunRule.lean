import CatalogSync.Proofs.Sequencing

/- A rule for whole runs. A relation between a world, what was counted since then and the world now
   that composes, and that every call of the service and every hook keeps, is kept by every part of
   a run (`Carried`, `Carried.run`). Nothing else of a run has to be looked at for such a
   relation. -/
namespace CatalogSync

/-- The hooks leave the world as it is. -/
structure Options.Still {K : Kind} {σ : Type} (options : Options K σ) : Prop where
  beforeCreate : ∀ hook, options.beforeCreate = some hook → ∀ draft w, (hook draft w).2 = w
  beforeUpdate : ∀ hook, options.beforeUpdate = some hook → ∀ actions draft e w,
    (hook actions draft e w).2 = w

namespace Sync

variable {K : Kind} {σ : Type}

/-- What a create call adds to the counts when it succeeds. -/
def createdBy : Except SyncError K.Entity → Tally
  | .ok _ => .ofCreated 1
  | .error _ => 0

/-- What an update call adds to the counts when it succeeds. -/
def updatedBy : Except SyncError K.Entity → Tally
  | .ok _ => .ofUpdated 1
  | .error _ => 0

/-- `R w t w'` composes and is kept by all that a run does: `w` is a world, `w'` one that came of
    it, and `t` is what was counted in between. -/
structure Carried (service : Service K σ) (options : Options K σ) (R : σ → Tally → σ → Prop) :
    Prop where
  idle : ∀ w, R w 0 w
  trans : ∀ {a b c s t}, R a s b → R b t c → R a (s + t) c
  processed : ∀ w n, R w (.ofProcessed n) w
  failed : ∀ w n, R w (.ofFailed n) w
  onFetchMatching : ∀ keys w, R w 0 (service.fetchMatching keys w).2
  onFetchByKey : ∀ key w, R w 0 (service.fetchByKey key w).2
  onCreate : ∀ draft w, R w (createdBy (service.create draft w).1) (service.create draft w).2
  onUpdate : ∀ e actions w,
    R w (updatedBy (service.update e actions w).1) (service.update e actions w).2
  onBeforeCreate : ∀ hook, options.beforeCreate = some hook → ∀ draft w, R w 0 (hook draft w).2
  onBeforeUpdate : ∀ hook, options.beforeUpdate = some hook → ∀ actions draft e w,
    R w 0 (hook actions draft e w).2

namespace Carried

variable {service : Service K σ} {options : Options K σ} {R : σ → Tally → σ → Prop}
  (c : Carried service options R)

include c

theorem andThen {w : σ} {o : Outcome K σ} {next : σ → Outcome K σ} (h : R w o.tally o.world)
    (h' : R o.world (next o.world).tally (next o.world).world) :
    R w (o.andThen next).tally (o.andThen next).world := c.trans h h'

/-- Failures may be counted on top. -/
theorem fail {w w' : σ} {t : Tally} (h : R w t w') (n : Nat) : R w (t + .ofFailed n) w' :=
  c.trans h (c.failed w' n)

theorem failedOnly {w w' : σ} (h : R w 0 w') (n : Nat) : R w (.ofFailed n) w' := by
  simpa using c.fail h n

theorem draftToCreate (draft : K.Draft) (w : σ) :
    R w (draftToCreate options draft w).2.tally (draftToCreate options draft w).2.world := by
  unfold Sync.draftToCreate
  cases found : options.beforeCreate with
  | none => exact c.idle w
  | some hook => exact c.onBeforeCreate hook found draft w

theorem callCreate (draft : K.Draft) (w : σ) :
    R w (callCreate service draft w).tally (callCreate service draft w).world := by
  have call := c.onCreate draft w
  unfold Sync.callCreate
  rcases answer : service.create draft w with ⟨_ | _, w'⟩
  · rw [answer] at call
    exact c.failedOnly call 1
  · rw [answer] at call
    exact call

theorem create (draft : K.Draft) (w : σ) :
    R w (Sync.create service options draft w).tally (Sync.create service options draft w).world := by
  have before := c.draftToCreate draft w
  unfold Sync.create
  rcases found : Sync.draftToCreate options draft w with ⟨_ | hooked, o⟩
  · rw [found] at before
    exact before
  · rw [found] at before
    exact c.andThen before (c.callCreate hooked o.world)

theorem actionsToSend (e : K.Entity) (draft : K.Draft) (w : σ) :
    R w (actionsToSend options e draft w).2.tally (actionsToSend options e draft w).2.world := by
  unfold Sync.actionsToSend
  cases found : options.beforeUpdate with
  | none => exact c.idle w
  | some hook =>
    by_cases empty : (K.plan options.config e draft).actions.isEmpty = true
    · simp only [empty, if_true]
      exact c.idle w
    · simp only [empty]
      exact c.onBeforeUpdate hook found _ draft e w

theorem callLastUpdate (e : K.Entity) (draft : K.Draft) (actions : List K.Action) (w : σ) :
    R w (callLastUpdate service e draft actions w).tally
      (callLastUpdate service e draft actions w).world := by
  have call := c.onUpdate e actions w
  unfold Sync.callLastUpdate
  rcases answer : service.update e actions w with ⟨_ | _, w'⟩
  · rw [answer] at call
    exact c.andThen call (c.failed w' 1)
  · rw [answer] at call
    exact call

theorem retryUpdate (stale : K.Entity) (draft : K.Draft) (w : σ) :
    R w (retryUpdate service options stale draft w).tally
      (retryUpdate service options stale draft w).world := by
  have call := c.onFetchByKey (retryKey draft) w
  rcases fetch : service.fetchByKey (retryKey draft) w with ⟨error | _ | fetched, w'⟩
  · rw [fetch] at call
    rw [retryUpdate_of_error service options fetch]
    exact c.failedOnly call 1
  · rw [fetch] at call
    rw [retryUpdate_of_gone service options fetch]
    exact c.failedOnly call 1
  · rw [fetch] at call
    rw [retryUpdate_of_fetched service options fetch]
    refine c.andThen call ?_
    have before := c.actionsToSend fetched draft w'
    rcases found : Sync.actionsToSend options fetched draft w' with ⟨_ | ⟨a, as⟩, o⟩
    · rw [found] at before
      exact before
    · rw [found] at before
      exact c.andThen before (c.callLastUpdate fetched draft (a :: as) o.world)

theorem callUpdate (e : K.Entity) (draft : K.Draft) (actions : List K.Action) (w : σ) :
    R w (callUpdate service options e draft actions w).tally
      (callUpdate service options e draft actions w).world := by
  have call := c.onUpdate e actions w
  unfold Sync.callUpdate
  rcases answer : service.update e actions w with ⟨error | _, w'⟩
  · rw [answer] at call
    refine c.andThen call ?_
    cases error.isConcurrentModification with
    | true => exact c.retryUpdate e draft w'
    | false => exact c.failed w' 1
  · rw [answer] at call
    exact call

theorem update (e : K.Entity) (draft : K.Draft) (w : σ) :
    R w (Sync.update service options e draft w).tally
      (Sync.update service options e draft w).world := by
  have before := c.actionsToSend e draft w
  by_cases empty : (Sync.actionsToSend options e draft w).1 = []
  · rw [update_of_empty service options empty]
    exact before
  · rw [update_of_loaded service options empty]
    exact c.andThen before (c.callUpdate e draft _ _)

theorem record (m : Matched K) (w : σ) :
    R w (record service options m w).tally (record service options m w).world := by
  cases m with
  | create draft => exact c.create draft w
  | update e draft => exact c.update e draft w

/-- Steps that keep the relation keep it when they are taken one after the other. -/
theorem sequence {α : Type} {step : α → σ → Outcome K σ}
    (h : ∀ a w, R w (step a w).tally (step a w).world) (as : List α) (w : σ) :
    R w (Outcome.sequence step as w).tally (Outcome.sequence step as w).world := by
  induction as generalizing w with
  | nil => exact c.idle w
  | cons a as ih => exact c.andThen (h a w) (ih _)

theorem records (v : Validated K) (w : σ) :
    R w (records service options v w).tally (records service options v w).world := by
  have call := c.onFetchMatching v.keys w
  unfold Sync.records
  rcases answer : service.fetchMatching v.keys w with ⟨error | existing, w'⟩
  · rw [answer] at call
    exact c.failedOnly call v.keys.size
  · rw [answer] at call
    exact c.andThen call (c.sequence c.record _ w')

theorem batch (drafts : List (Option K.Draft)) (w : σ) :
    R w (batch service options drafts w).tally (batch service options drafts w).world := by
  refine c.andThen (c.processed w drafts.length) ?_
  by_cases empty : (validate K drafts).drafts.isEmpty = true
  · rw [if_pos empty]
    exact c.idle w
  · rw [if_neg empty]
    exact c.records (validate K drafts) w

/-- The rule: a relation that every call and every hook keeps is kept by a run. -/
theorem run (drafts : List (Option K.Draft)) (w : σ) :
    R w (run service options drafts w).tally (run service options drafts w).world :=
  c.sequence c.batch _ w

end Carried

end Sync

end CatalogSync
