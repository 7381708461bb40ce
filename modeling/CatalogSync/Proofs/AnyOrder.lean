import CatalogSync.Proofs.Interleaving

/- What holds in any order. A record does among others what it would do alone, for a service that
   answers each of its calls from the world that the call met (`Service.along`, `Reaches.alone`), so
   its calls are those of a plain run (`calls_of_mem_interleave`). And the rule for runs does not
   depend on the order: a relation that every call and every hook keeps is kept by a run on any
   schedule (`Carried.runOn`). -/
namespace CatalogSync

/-! ### Answers from many worlds -/

section Along

variable {K : Kind} {σ : Type}

/-- The worlds `rest`, and `w` before them. -/
def before (w : σ) (rest : Nat → σ) : Nat → σ
  | 0 => w
  | n + 1 => rest n

/-- The same service, with a world of its own for every call: the next one of a sequence. -/
def Service.along (s : Service K σ) : Service K (Nat → σ) where
  fetchMatching keys ws := ((s.fetchMatching keys (ws 0)).1, fun n => ws (n + 1))
  fetchByKey key ws := ((s.fetchByKey key (ws 0)).1, fun n => ws (n + 1))
  create draft ws := ((s.create draft (ws 0)).1, fun n => ws (n + 1))
  update entity actions ws := ((s.update entity actions (ws 0)).1, fun n => ws (n + 1))

/-- The same options, with a world of its own for every use of a hook. -/
def Options.along (o : Options K σ) : Options K (Nat → σ) where
  config := o.config
  listeners := o.listeners
  beforeCreate := o.beforeCreate.map fun hook draft ws =>
    ((hook draft (ws 0)).1, fun n => ws (n + 1))
  beforeUpdate := o.beforeUpdate.map fun hook actions draft e ws =>
    ((hook actions draft e (ws 0)).1, fun n => ws (n + 1))

/-- The calls of a record on its way. -/
def Task.calls (task : Task K) : List (Entry K) := task.journal.filter (·.isCall)

/-- The outcome, but for the world. -/
def Outcome.leaving {τ : Type} (o : Outcome K σ) (w : τ) : Outcome K τ := ⟨w, o.tally, o.journal⟩

end Along

namespace Sync

variable {K : Kind} {σ : Type} (service : Service K σ) (options : Options K σ)

section Steps

variable (w : σ) (rest : Nat → σ)

theorem draftToCreate_along (draft : K.Draft) :
    ∃ ws, draftToCreate options.along draft ws = ((draftToCreate options draft w).1,
      (draftToCreate options draft w).2.leaving rest) := by
  unfold draftToCreate Options.along
  cases options.beforeCreate with
  | none => exact ⟨rest, rfl⟩
  | some hook => exact ⟨before w rest, rfl⟩

theorem actionsToSend_along (existing : K.Entity) (draft : K.Draft) :
    ∃ ws, actionsToSend options.along existing draft ws =
      ((actionsToSend options existing draft w).1,
        (actionsToSend options existing draft w).2.leaving rest) := by
  unfold actionsToSend Options.along
  cases options.beforeUpdate with
  | none => exact ⟨rest, rfl⟩
  | some hook =>
    by_cases empty : (K.plan options.config existing draft).actions.isEmpty = true
    · refine ⟨rest, ?_⟩
      simp only [Option.map_some, empty, if_true]
      rfl
    · refine ⟨before w rest, ?_⟩
      simp only [Option.map_some, empty]
      rfl

theorem startUpdate_along (last : Bool) (existing : K.Entity) (draft : K.Draft) :
    ∃ ws, startUpdate options.along last existing draft ws =
      ((startUpdate options last existing draft w).1.leaving rest,
        (startUpdate options last existing draft w).2) := by
  obtain ⟨ws, found⟩ := actionsToSend_along options w rest existing draft
  refine ⟨ws, ?_⟩
  unfold startUpdate
  rw [found]
  rcases actionsToSend options existing draft w with ⟨_ | ⟨a, as⟩, o⟩
  · rfl
  · rfl

/-- What a step does in one world, it does along worlds of which this one is next. -/
theorem step_along (p : Phase K) :
    ∃ ws, step service.along options.along p ws =
      ((step service options p w).1.leaving rest, (step service options p w).2) := by
  cases p with
  | ready m =>
    cases m with
    | create draft =>
      obtain ⟨ws, found⟩ := draftToCreate_along options w rest draft
      refine ⟨ws, ?_⟩
      show startCreate options.along draft ws = ((startCreate options draft w).1.leaving rest,
        (startCreate options draft w).2)
      unfold startCreate
      rw [found]
      rcases draftToCreate options draft w with ⟨_ | hooked, o⟩
      · rfl
      · rfl
    | update existing draft => exact startUpdate_along options w rest false existing draft
  | creating draft => exact ⟨before w rest, rfl⟩
  | created draft answer =>
    refine ⟨rest, ?_⟩
    cases answer with
    | ok entity => rfl
    | error error => rfl
  | updating last existing draft actions => exact ⟨before w rest, rfl⟩
  | updated last existing draft actions answer =>
    refine ⟨rest, ?_⟩
    cases answer with
    | ok entity => rfl
    | error error =>
      show endUpdate last existing draft actions rest (.error error) =
        ((endUpdate last existing draft actions w (.error error)).1.leaving rest,
          (endUpdate last existing draft actions w (.error error)).2)
      cases again : (!last && error.isConcurrentModification) with
      | true =>
        rw [endUpdate_of_conflict again, endUpdate_of_conflict again]
        rfl
      | false =>
        rw [endUpdate_of_final again, endUpdate_of_final again]
        rfl
  | fetching stale draft => exact ⟨before w rest, rfl⟩
  | fetched stale draft answer =>
    rcases answer with error | _ | fetched
    · exact ⟨rest, rfl⟩
    · exact ⟨rest, rfl⟩
    · exact startUpdate_along options w rest true fetched draft
  | finished => exact ⟨rest, rfl⟩

end Steps

/-! ### A record on its own -/

/-- What a record can have come to, with what it has counted and done: every step may start in any
    world. -/
inductive Reaches (m : Matched K) : Phase K → Tally → List (Entry K) → Prop
  | ready : Reaches m (.ready m) .zero []
  | step {p : Phase K} {t : Tally} {journal : List (Entry K)} (w : σ) (h : Reaches m p t journal) :
    Reaches m (step service options p w).2 (t + (step service options p w).1.tally)
      (journal ++ (step service options p w).1.journal)

namespace Reaches

variable {service options} {m : Matched K} {p : Phase K} {t : Tally} {journal : List (Entry K)}

/-- What a record has come to, it comes to alone along the worlds that it met, and goes on from
    there. -/
theorem goesOn (h : Reaches service options m p t journal) (rest : Nat → σ) :
    ∃ ws, record service.along options.along m ws =
      Outcome.andThen ⟨rest, t, journal⟩ (finish service.along options.along p) := by
  induction h generalizing rest with
  | ready => exact ⟨rest, (Outcome.idle_andThen rest _).symm⟩
  | @step p t journal w _ ih =>
    obtain ⟨between, stepped⟩ := step_along service options w rest p
    obtain ⟨ws, same⟩ := ih between
    refine ⟨ws, same.trans ?_⟩
    have next := finish_step service.along options.along p between
    rw [stepped] at next
    simp only [Outcome.andThen, next, Outcome.leaving, add_assoc, List.append_assoc]

/-- A record at its end has done what it does alone. -/
theorem alone (h : Reaches service options m .finished t journal) (rest : Nat → σ) :
    ∃ ws, record service.along options.along m ws = ⟨rest, t, journal⟩ := by
  obtain ⟨ws, same⟩ := h.goesOn rest
  exact ⟨ws, same.trans (Outcome.andThen_idle _)⟩

end Reaches

theorem reaches_of_mem_interleave {picks : List Nat} {records : List (Matched K)} {w : σ}
    {task : Task K} (there : task ∈ (interleave service options picks records w).tasks) :
    Reaches service options task.record task.phase task.tally task.journal := by
  refine foldl_advance service options (P := fun p => ∀ task ∈ p.tasks,
    Reaches service options task.record task.phase task.tally task.journal) ?_ _ ?_ task there
  · intro before task after o all other there
    rcases List.mem_append.1 there with there | there
    · exact all other (List.mem_append_left _ there)
    · rcases List.mem_cons.1 there with rfl | there
      · exact .step o.world (all task (by simp))
      · exact all other (by simp [there])
  · intro task there
    obtain ⟨m, -, rfl⟩ := List.mem_map.1 there
    exact .ready

/-- In any order, a record does what it does alone, along the worlds that it met. -/
theorem alone_of_mem_interleave {picks : List Nat} {records : List (Matched K)} {w : σ}
    {task : Task K} (there : task ∈ (interleave service options picks records w).tasks) :
    ∃ ws, let o := record service.along options.along task.record ws
      task.tally = o.tally ∧ task.journal = o.journal := by
  have reached := reaches_of_mem_interleave service options there
  rw [(tasks_interleave service options picks records w).2 task there] at reached
  obtain ⟨ws, same⟩ := reached.alone fun _ => w
  exact ⟨ws, by rw [same], by rw [same]⟩

/-- The calls of a record in any order are those of a plain run: at most one create call, or one of
    the call sequences of an update, and what it counts can be read off them. -/
theorem calls_of_mem_interleave {picks : List Nat} {records : List (Matched K)} {w : σ}
    {task : Task K} (there : task ∈ (interleave service options picks records w).tasks) :
    (∀ draft, task.record = .create draft →
      ∃ ws, CreateCalls service.along options.along draft ws task.calls task.tally) ∧
    ∀ existing draft, task.record = .update existing draft →
      ∃ ws, UpdateCalls service.along options.along existing draft ws task.calls task.tally ∧
        (∀ x, task.calls[2]? = some x ↔
          Resends service.along options.along existing draft ws x) ∧
        task.tally = countOf task.calls := by
  obtain ⟨ws, tally, journal⟩ := alone_of_mem_interleave service options there
  have calls : task.calls = (record service.along options.along task.record ws).calls := by
    rw [Task.calls, journal]
    rfl
  refine ⟨?_, ?_⟩
  · intro draft creates
    rw [creates] at calls tally
    rw [calls, tally]
    exact ⟨ws, create_calls service.along options.along draft ws⟩
  · intro existing draft updates
    rw [updates] at calls tally
    rw [calls, tally]
    have seen : UpdateCalls service.along options.along existing draft ws
      (record service.along options.along (.update existing draft) ws).calls
      (record service.along options.along (.update existing draft) ws).tally :=
        update_calls service.along options.along existing draft ws
    exact ⟨ws, seen, seen.third_iff, seen.tally_eq⟩

/-- In any order, no update is sent and the hook before updates is not run without actions. -/
theorem runOn_loaded (schedule : Schedule) (drafts : List (Option K.Draft)) (w : σ) :
    ∀ x ∈ (runOn service options schedule drafts w).journal, Loaded x := by
  refine Outcome.sequence_journal (fun piece _ w x there => ?_) w
  rcases List.mem_append.1 there with rejection | there
  · obtain ⟨r, -, rfl⟩ := List.mem_map.1 rejection
    trivial
  · by_cases empty : (validate K piece.1).drafts.isEmpty = true
    · rw [if_pos empty] at there
      exact absurd there List.not_mem_nil
    · rw [if_neg empty] at there
      rcases fetch : service.fetchMatching (validate K piece.1).keys w with ⟨error | existing, w'⟩
      · rw [recordsOn_of_error service options fetch] at there
        simp only [List.mem_cons, List.not_mem_nil, or_false] at there
        rcases there with rfl | rfl <;> trivial
      · rw [recordsOn_of_ok service options fetch] at there
        rcases List.mem_append.1 there with call | there
        · rw [List.mem_singleton.1 call]
          trivial
        · -- an entry of the batch is an entry of one of its records
          have merged := (merges_interleave service options (schedule piece.2)
            (matchDrafts K existing (validate K piece.1).drafts) w').2
          obtain ⟨journal, listed, inside⟩ := List.mem_flatten.1 (merged.perm.mem_iff.1 there)
          obtain ⟨task, mem, rfl⟩ := List.mem_map.1 listed
          obtain ⟨ws, -, same⟩ := alone_of_mem_interleave service options mem
          rw [same] at inside
          exact record_loaded service.along options.along task.record ws x inside

/-! ### The rule for runs -/

end Sync

/-- What an answer has brought that is not counted yet. -/
def Phase.owed {K : Kind} : Phase K → Tally
  | created _ answer => Sync.createdBy answer
  | updated _ _ _ _ answer => Sync.updatedBy answer
  | _ => 0

namespace Sync

variable {K : Kind} {σ : Type}

namespace Carried

variable {service : Service K σ} {options : Options K σ} {R : σ → Tally → σ → Prop}
  (c : Carried service options R)

include c

theorem startUpdate (last : Bool) (e : K.Entity) (draft : K.Draft) (w : σ) :
    ∃ t, R w t (startUpdate options last e draft w).1.world ∧
      t = (startUpdate options last e draft w).1.tally +
        (startUpdate options last e draft w).2.owed := by
  have before := c.actionsToSend e draft w
  unfold Sync.startUpdate
  rcases found : Sync.actionsToSend options e draft w with ⟨_ | ⟨a, as⟩, o⟩
  · rw [found] at before
    exact ⟨o.tally, before, (add_zero _).symm⟩
  · rw [found] at before
    exact ⟨o.tally, before, (add_zero _).symm⟩

/-- A step keeps the relation; what a call brings is counted when its answer is looked at. -/
theorem step (p : Phase K) (w : σ) :
    ∃ t, R w t (step service options p w).1.world ∧
      p.owed + t = (step service options p w).1.tally + (step service options p w).2.owed := by
  cases p with
  | ready m =>
    cases m with
    | create draft =>
      have before := c.draftToCreate draft w
      show ∃ t, R w t (startCreate options draft w).1.world ∧
        0 + t = (startCreate options draft w).1.tally + (startCreate options draft w).2.owed
      unfold startCreate
      rcases found : Sync.draftToCreate options draft w with ⟨_ | hooked, o⟩
      · rw [found] at before
        exact ⟨o.tally, before, add_comm _ _⟩
      · rw [found] at before
        exact ⟨o.tally, before, add_comm _ _⟩
    | update existing draft =>
      obtain ⟨t, kept, counted⟩ := c.startUpdate false existing draft w
      exact ⟨t, kept, (zero_add t).trans counted⟩
  | creating draft =>
    have call := c.onCreate draft w
    exact ⟨_, call, rfl⟩
  | created draft answer =>
    cases answer with
    | ok entity => exact ⟨0, c.idle w, rfl⟩
    | error error => exact ⟨_, c.failed w 1, add_comm _ _⟩
  | updating last existing draft actions => exact ⟨_, c.onUpdate existing actions w, rfl⟩
  | updated last existing draft actions answer =>
    cases answer with
    | ok entity => exact ⟨0, c.idle w, rfl⟩
    | error error =>
      show ∃ t, R w t (endUpdate last existing draft actions w (.error error)).1.world ∧
        0 + t = (endUpdate last existing draft actions w (.error error)).1.tally +
          (endUpdate last existing draft actions w (.error error)).2.owed
      cases again : (!last && error.isConcurrentModification) with
      | true =>
        rw [endUpdate_of_conflict again]
        exact ⟨0, c.idle w, rfl⟩
      | false =>
        rw [endUpdate_of_final again]
        exact ⟨_, c.failed w 1, add_comm _ _⟩
  | fetching stale draft => exact ⟨0, c.onFetchByKey (retryKey draft) w, rfl⟩
  | fetched stale draft answer =>
    rcases answer with error | _ | fetched
    · exact ⟨_, c.failed w 1, add_comm _ _⟩
    · exact ⟨_, c.failed w 1, add_comm _ _⟩
    · obtain ⟨t, kept, counted⟩ := c.startUpdate true fetched draft w
      exact ⟨t, kept, (zero_add t).trans counted⟩
  | finished => exact ⟨0, c.idle w, rfl⟩

/-- The records of a batch keep the relation in any order. -/
theorem interleave (picks : List Nat) (records : List (Matched K)) (w : σ) :
    let o := (interleave service options picks records w).outcome
    R w o.tally o.world := by
  have kept : ∃ t, R w t (Sync.interleave service options picks records w).outcome.world ∧
      t = (Sync.interleave service options picks records w).outcome.tally +
        ((Sync.interleave service options picks records w).tasks.map (·.phase.owed)).sum := by
    refine foldl_advance service options (P := fun p => ∃ t, R w t p.outcome.world ∧
      t = p.outcome.tally + (p.tasks.map (·.phase.owed)).sum) ?_ _ ?_
    · rintro before task after o ⟨t, kept, counted⟩
      obtain ⟨more, stepped, owed⟩ := c.step task.phase o.world
      refine ⟨t + more, c.trans kept stepped, ?_⟩
      simp only [List.map_append, List.map_cons, List.sum_append, List.sum_cons] at counted ⊢
      show _ = o.tally + (Sync.step service options task.phase o.world).1.tally +
        (_ + ((Sync.step service options task.phase o.world).2.owed + _))
      calc t + more
          = o.tally + ((before.map (·.phase.owed)).sum + (after.map (·.phase.owed)).sum) +
              (task.phase.owed + more) := by rw [counted]; ac_rfl
        _ = _ := by rw [owed]; ac_rfl
    · refine ⟨0, c.idle w, ?_⟩
      show 0 = (0 : Tally) + ((records.map _).map _).sum
      rw [List.map_map, zero_add]
      exact (List.sum_eq_zero (by simp [Phase.owed])).symm
  obtain ⟨t, kept, counted⟩ := kept
  have none : ((Sync.interleave service options picks records w).tasks.map
      (·.phase.owed)).sum = 0 := by
    refine List.sum_eq_zero fun owed there => ?_
    obtain ⟨task, listed, rfl⟩ := List.mem_map.1 there
    rw [(tasks_interleave service options picks records w).2 task listed]
    rfl
  rw [none, add_zero] at counted
  intro o
  rw [counted] at kept
  exact kept

theorem recordsOn (picks : List Nat) (v : Validated K) (w : σ) :
    R w (recordsOn service options picks v w).tally
      (recordsOn service options picks v w).world := by
  have call := c.onFetchMatching v.keys w
  rcases answer : service.fetchMatching v.keys w with ⟨error | existing, w'⟩
  · rw [answer] at call
    rw [recordsOn_of_error service options answer]
    exact c.failedOnly call v.keys.size
  · rw [answer] at call
    rw [recordsOn_of_ok service options answer]
    exact c.andThen call (c.interleave picks _ w')

theorem batchOn (picks : List Nat) (drafts : List (Option K.Draft)) (w : σ) :
    R w (batchOn service options picks drafts w).tally
      (batchOn service options picks drafts w).world := by
  refine c.andThen (c.processed w drafts.length) ?_
  by_cases empty : (validate K drafts).drafts.isEmpty = true
  · rw [if_pos empty]
    exact c.idle w
  · rw [if_neg empty]
    exact c.recordsOn picks (validate K drafts) w

/-- The rule on any schedule: a relation that every call and every hook keeps is kept by a run. -/
theorem runOn (schedule : Schedule) (drafts : List (Option K.Draft)) (w : σ) :
    R w (runOn service options schedule drafts w).tally
      (runOn service options schedule drafts w).world :=
  c.sequence (fun piece => c.batchOn (schedule piece.2) piece.1) _ w

end Carried

end Sync

end CatalogSync
