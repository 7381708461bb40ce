import CatalogSync.Sync.Run

/- The calls of a run. A record without a stored entity makes at most one create call; a record
   with one follows one of a handful of call sequences, with at most one retry (`CreateCalls`,
   `UpdateCalls`). Nothing is assumed of the service or of the hooks. What holds of every entry
   that a record can leave holds of every entry of a run (`Outcome.sequence_journal`); in
   particular no update is sent without actions. Main statement: `record_calls`. -/
namespace CatalogSync

namespace Tally

@[simp] theorem zero_add (t : Tally) : .zero + t = t := by
  show Tally.add .zero t = t
  simp [add, zero]

end Tally

namespace Outcome

variable {K : Kind} {σ : Type}

/-- The calls of the service in a journal. -/
def calls (o : Outcome K σ) : List (Entry K) := o.journal.filter (·.isCall)

@[simp] theorem tally_andThen (o : Outcome K σ) (next : σ → Outcome K σ) :
    (o.andThen next).tally = o.tally + (next o.world).tally := rfl

@[simp] theorem journal_andThen (o : Outcome K σ) (next : σ → Outcome K σ) :
    (o.andThen next).journal = o.journal ++ (next o.world).journal := rfl

@[simp] theorem calls_andThen (o : Outcome K σ) (next : σ → Outcome K σ) :
    (o.andThen next).calls = o.calls ++ (next o.world).calls := by
  simp [calls]

/-- What holds of every entry that one step can leave holds of every entry of a sequence. -/
theorem sequence_journal {α : Type} {step : α → σ → Outcome K σ} {p : Entry K → Prop}
    {as : List α} (h : ∀ a ∈ as, ∀ w, ∀ x ∈ (step a w).journal, p x) :
    ∀ w, ∀ x ∈ (sequence step as w).journal, p x := by
  induction as with
  | nil => exact fun _ x hx => absurd hx List.not_mem_nil
  | cons a as ih =>
    intro w x hx
    -- the journal of the first step, then that of the others in the world it left
    rcases List.mem_append.1 hx with hx | hx
    · exact h a (List.mem_cons_self ..) w x hx
    · exact ih (fun b hb => h b (List.mem_cons_of_mem a hb)) _ x hx

end Outcome

namespace Sync

variable {K : Kind} {σ : Type}

/-! ### The call sequences of a record -/

/-- The first update call of a record. -/
def firstUpdate (service : Service K σ) (options : Options K σ) (existing : K.Entity)
    (draft : K.Draft) (w : σ) : Except SyncError K.Entity × σ :=
  let sent := actionsToSend options existing draft w
  service.update existing sent.1 sent.2.world

/-- The key under which a record is fetched again. -/
def retryKey (draft : K.Draft) : String := (K.draftKey draft).getD ""

/-- What a create call counts. -/
def createTally : Except SyncError K.Entity → Tally
  | .ok _ => .ofCreated 1
  | .error _ => .ofFailed 1

/-- What the last update call of a record counts. -/
def updateTally : Except SyncError K.Entity → Tally
  | .ok _ => .ofUpdated 1
  | .error _ => .ofFailed 1

/-- The update met a concurrent modification. -/
def conflicts : Except SyncError K.Entity → Bool
  | .ok _ => false
  | .error error => error.isConcurrentModification

/-- The calls that a record without a stored entity may make, with what it counts. -/
inductive CreateCalls (service : Service K σ) (options : Options K σ) (draft : K.Draft) (w : σ) :
    List (Entry K) → Tally → Prop
  /-- The hook vetoes. -/
  | vetoed (veto : (draftToCreate options draft w).1 = none) :
    CreateCalls service options draft w [] .zero
  /-- One call, for the draft as the hook left it. -/
  | created {hooked : K.Draft} {r : Except SyncError K.Entity}
      (passed : (draftToCreate options draft w).1 = some hooked)
      (call : (service.create hooked (draftToCreate options draft w).2.world).1 = r) :
    CreateCalls service options draft w [.create hooked r] (createTally r)

/-- The calls that may follow a conflict in the world `w`, with what the record counts. The actions
    are found anew for the fetched entity. -/
inductive RetryCalls (service : Service K σ) (options : Options K σ) (draft : K.Draft) (w : σ) :
    List (Entry K) → Tally → Prop
  /-- The entity cannot be fetched or is gone. -/
  | lost {f : Except SyncError (Option K.Entity)}
      (fetch : (service.fetchByKey (retryKey draft) w).1 = f)
      (missing : ∀ fetched, f ≠ .ok (some fetched)) :
    RetryCalls service options draft w [.fetchByKey (retryKey draft) f] (.ofFailed 1)
  /-- The fetched entity needs no actions. -/
  | settled {fetched : K.Entity}
      (fetch : (service.fetchByKey (retryKey draft) w).1 = .ok (some fetched))
      (empty : (actionsToSend options fetched draft
        (service.fetchByKey (retryKey draft) w).2).1 = []) :
    RetryCalls service options draft w [.fetchByKey (retryKey draft) (.ok (some fetched))] .zero
  /-- One more update, of the fetched entity; its result is final. -/
  | resent {fetched : K.Entity} {actions : List K.Action} {r : Except SyncError K.Entity}
      (fetch : (service.fetchByKey (retryKey draft) w).1 = .ok (some fetched))
      (sent : (actionsToSend options fetched draft
        (service.fetchByKey (retryKey draft) w).2).1 = actions)
      (loaded : actions ≠ [])
      (call : (firstUpdate service options fetched draft
        (service.fetchByKey (retryKey draft) w).2).1 = r) :
    RetryCalls service options draft w
      [.fetchByKey (retryKey draft) (.ok (some fetched)), .update fetched actions r] (updateTally r)

/-- The calls that a record with a stored entity may make, with what it counts. -/
inductive UpdateCalls (service : Service K σ) (options : Options K σ) (existing : K.Entity)
    (draft : K.Draft) (w : σ) : List (Entry K) → Tally → Prop
  /-- There is nothing to send. -/
  | nothing (empty : (actionsToSend options existing draft w).1 = []) :
    UpdateCalls service options existing draft w [] .zero
  /-- One update, which succeeds or fails for good. -/
  | once {actions : List K.Action} {r : Except SyncError K.Entity}
      (sent : (actionsToSend options existing draft w).1 = actions) (loaded : actions ≠ [])
      (call : (firstUpdate service options existing draft w).1 = r) (final : conflicts r = false) :
    UpdateCalls service options existing draft w [.update existing actions r] (updateTally r)
  /-- An update that meets a conflict, and what follows it. -/
  | again {actions : List K.Action} {r : Except SyncError K.Entity} {calls : List (Entry K)}
      {t : Tally} (sent : (actionsToSend options existing draft w).1 = actions)
      (loaded : actions ≠ []) (call : (firstUpdate service options existing draft w).1 = r)
      (conflict : conflicts r = true)
      (rest : RetryCalls service options draft (firstUpdate service options existing draft w).2
        calls t) :
    UpdateCalls service options existing draft w (.update existing actions r :: calls) t

/-! ### Creating -/

variable (service : Service K σ) (options : Options K σ)

/-- Finding the draft to create neither counts nor calls. -/
theorem draftToCreate_quiet (draft : K.Draft) (w : σ) :
    (draftToCreate options draft w).2.tally = .zero ∧
      (draftToCreate options draft w).2.calls = [] := by
  unfold draftToCreate
  cases options.beforeCreate with
  | none => exact ⟨rfl, rfl⟩
  | some hook => exact ⟨rfl, rfl⟩

theorem create_of_vetoed {draft : K.Draft} {w : σ} {o : Outcome K σ}
    (found : draftToCreate options draft w = (none, o)) : create service options draft w = o := by
  simp only [create, found]

theorem create_of_passed {draft hooked : K.Draft} {w : σ} {o : Outcome K σ}
    (found : draftToCreate options draft w = (some hooked, o)) :
    create service options draft w = o.andThen (callCreate service hooked) := by
  simp only [create, found]

theorem callCreate_of_ok {draft : K.Draft} {entity : K.Entity} {w w' : σ}
    (call : service.create draft w = (.ok entity, w')) :
    callCreate service draft w = ⟨w', .ofCreated 1, [.create draft (.ok entity)]⟩ := by
  simp only [callCreate, call]

theorem callCreate_of_error {draft : K.Draft} {error : SyncError} {w w' : σ}
    (call : service.create draft w = (.error error, w')) :
    callCreate service draft w = ⟨w', .ofFailed 1,
      [.create draft (.error error), .event (.createFailed draft error)]⟩ := by
  simp only [callCreate, call]

theorem callCreate_calls (draft : K.Draft) (w : σ) :
    (callCreate service draft w).calls = [.create draft (service.create draft w).1] ∧
      (callCreate service draft w).tally = createTally (service.create draft w).1 := by
  unfold callCreate
  rcases service.create draft w with ⟨_ | _, w'⟩
  · exact ⟨rfl, rfl⟩
  · exact ⟨rfl, rfl⟩

theorem create_calls (draft : K.Draft) (w : σ) :
    CreateCalls service options draft w (create service options draft w).calls
      (create service options draft w).tally := by
  obtain ⟨count, quiet⟩ := draftToCreate_quiet options draft w
  unfold create
  rcases found : draftToCreate options draft w with ⟨_ | hooked, o⟩
  · rw [found] at count quiet
    show CreateCalls service options draft w o.calls o.tally
    rw [count, quiet]
    exact .vetoed (by rw [found])
  · rw [found] at count quiet
    obtain ⟨call, counted⟩ := callCreate_calls service hooked o.world
    show CreateCalls service options draft w (o.andThen _).calls (o.andThen _).tally
    rw [Outcome.calls_andThen, Outcome.tally_andThen, count, quiet, call, counted,
      Tally.zero_add]
    refine .created ?_ ?_
    · rw [found]
    · rw [found]

/-! ### Updating -/

/-- Finding the actions to send neither counts nor calls. -/
theorem actionsToSend_quiet (existing : K.Entity) (draft : K.Draft) (w : σ) :
    (actionsToSend options existing draft w).2.tally = .zero ∧
      (actionsToSend options existing draft w).2.calls = [] := by
  have reported : ∀ issues : List Issue,
      (issues.map fun i => (Entry.event (.issue existing draft i) : Entry K)).filter (·.isCall)
        = [] := by
    intro issues
    rw [List.filter_eq_nil_iff]
    intro x hx
    obtain ⟨i, -, rfl⟩ := List.mem_map.1 hx
    exact Bool.false_ne_true
  unfold actionsToSend
  cases options.beforeUpdate with
  | none => exact ⟨rfl, reported _⟩
  | some hook =>
    by_cases empty : (K.plan options.config existing draft).actions.isEmpty = true
    · simp only [empty, if_true]
      exact ⟨trivial, reported _⟩
    · simp only [empty]
      refine ⟨rfl, ?_⟩
      simp [Outcome.calls, Entry.isCall]

theorem update_of_empty {existing : K.Entity} {draft : K.Draft} {w : σ}
    (empty : (actionsToSend options existing draft w).1 = []) :
    update service options existing draft w = (actionsToSend options existing draft w).2 := by
  unfold update
  rcases found : actionsToSend options existing draft w with ⟨_ | ⟨a, as⟩, o⟩
  · rfl
  · rw [found] at empty
    cases empty

theorem update_of_loaded {existing : K.Entity} {draft : K.Draft} {w : σ}
    (loaded : (actionsToSend options existing draft w).1 ≠ []) :
    update service options existing draft w = (actionsToSend options existing draft w).2.andThen
      (callUpdate service options existing draft (actionsToSend options existing draft w).1) := by
  unfold update
  rcases found : actionsToSend options existing draft w with ⟨_ | ⟨a, as⟩, o⟩
  · rw [found] at loaded
    exact absurd rfl loaded
  · rfl

theorem callLastUpdate_calls (existing : K.Entity) (draft : K.Draft) (actions : List K.Action)
    (w : σ) :
    (callLastUpdate service existing draft actions w).calls
        = [.update existing actions (service.update existing actions w).1] ∧
      (callLastUpdate service existing draft actions w).tally
        = updateTally (service.update existing actions w).1 := by
  unfold callLastUpdate
  rcases service.update existing actions w with ⟨error | entity, w'⟩
  · refine ⟨rfl, ?_⟩
    exact Tally.zero_add _
  · exact ⟨rfl, rfl⟩

theorem callLastUpdate_of_ok {existing entity : K.Entity} {draft : K.Draft}
    {actions : List K.Action} {w w' : σ}
    (call : service.update existing actions w = (.ok entity, w')) :
    callLastUpdate service existing draft actions w =
      ⟨w', .ofUpdated 1, [.update existing actions (.ok entity)]⟩ := by
  simp only [callLastUpdate, call]

theorem callLastUpdate_of_error {existing : K.Entity} {draft : K.Draft} {actions : List K.Action}
    {error : SyncError} {w w' : σ}
    (call : service.update existing actions w = (.error error, w')) :
    callLastUpdate service existing draft actions w =
      Outcome.andThen ⟨w', .zero, [.update existing actions (.error error)]⟩
        (failUpdate existing draft actions error) := by
  simp only [callLastUpdate, call]

theorem callUpdate_of_accepted {existing entity : K.Entity} {draft : K.Draft}
    {actions : List K.Action} {w w' : σ}
    (call : service.update existing actions w = (.ok entity, w')) :
    callUpdate service options existing draft actions w =
      ⟨w', .ofUpdated 1, [.update existing actions (.ok entity)]⟩ := by
  simp only [callUpdate, call]

theorem callUpdate_of_rejected {existing : K.Entity} {draft : K.Draft} {actions : List K.Action}
    {error : SyncError} {w w' : σ}
    (call : service.update existing actions w = (.error error, w')) :
    callUpdate service options existing draft actions w =
      Outcome.andThen ⟨w', .zero, [.update existing actions (.error error)]⟩
        (if error.isConcurrentModification then retryUpdate service options existing draft
         else failUpdate existing draft actions error) := by
  simp only [callUpdate, call]

theorem retryUpdate_of_error {stale : K.Entity} {draft : K.Draft} {w w' : σ} {error : SyncError}
    (fetch : service.fetchByKey (retryKey draft) w = (.error error, w')) :
    retryUpdate service options stale draft w = ⟨w', .ofFailed 1,
      [.fetchByKey (retryKey draft) (.error error),
        .event (.retryFetchFailed stale draft error)]⟩ := by
  unfold retryKey at fetch
  simp only [retryUpdate, retryKey, fetch]

theorem retryUpdate_of_gone {stale : K.Entity} {draft : K.Draft} {w w' : σ}
    (fetch : service.fetchByKey (retryKey draft) w = (.ok none, w')) :
    retryUpdate service options stale draft w = ⟨w', .ofFailed 1,
      [.fetchByKey (retryKey draft) (.ok none), .event (.retryNotFound stale draft)]⟩ := by
  unfold retryKey at fetch
  simp only [retryUpdate, retryKey, fetch]

/-- With a fetched entity, the second try is an update whose only call is the last one. -/
theorem retryUpdate_of_fetched {stale fetched : K.Entity} {draft : K.Draft} {w w' : σ}
    (fetch : service.fetchByKey (retryKey draft) w = (.ok (some fetched), w')) :
    retryUpdate service options stale draft w =
      Outcome.andThen ⟨w', .zero, [.fetchByKey (retryKey draft) (.ok (some fetched))]⟩ fun w =>
        match actionsToSend options fetched draft w with
        | ([], o) => o
        | (actions, o) => o.andThen (callLastUpdate service fetched draft actions) := by
  unfold retryKey at fetch ⊢
  unfold retryUpdate
  dsimp only
  split
  · next h =>
    rw [fetch] at h
    cases h
  · next h =>
    rw [fetch] at h
    cases h
  · next h =>
    rw [fetch] at h
    cases h
    rfl

/-- With actions for the fetched entity, the last call follows. -/
theorem retryUpdate_of_loaded {stale fetched : K.Entity} {draft : K.Draft}
    {actions : List K.Action} {w w' : σ} {o : Outcome K σ}
    (fetch : service.fetchByKey (retryKey draft) w = (.ok (some fetched), w'))
    (sent : actionsToSend options fetched draft w' = (actions, o)) (loaded : actions ≠ []) :
    retryUpdate service options stale draft w =
      Outcome.andThen ⟨w', .zero, [.fetchByKey (retryKey draft) (.ok (some fetched))]⟩ fun _ =>
        o.andThen (callLastUpdate service fetched draft actions) := by
  obtain ⟨a, as, rfl⟩ := List.exists_cons_of_ne_nil loaded
  rw [retryUpdate_of_fetched service options fetch]
  simp only [Outcome.andThen, sent]

theorem retryUpdate_calls (stale : K.Entity) (draft : K.Draft) (w : σ) :
    RetryCalls service options draft w (retryUpdate service options stale draft w).calls
      (retryUpdate service options stale draft w).tally := by
  rcases fetch : service.fetchByKey (retryKey draft) w with ⟨error | _ | fetched, w'⟩
  · rw [retryUpdate_of_error service options fetch]
    exact .lost (by rw [fetch]) (by intro _ h; cases h)
  · rw [retryUpdate_of_gone service options fetch]
    exact .lost (by rw [fetch]) (by intro _ h; cases h)
  · rw [retryUpdate_of_fetched service options fetch]
    obtain ⟨count, quiet⟩ := actionsToSend_quiet options fetched draft w'
    rw [Outcome.calls_andThen, Outcome.tally_andThen, Tally.zero_add]
    rcases found : actionsToSend options fetched draft w' with ⟨_ | ⟨a, as⟩, o⟩
    · -- the fetched entity is as the draft wants it already
      rw [found] at count quiet
      show RetryCalls service options draft w
        (.fetchByKey (retryKey draft) (.ok (some fetched)) :: o.calls) o.tally
      rw [count, quiet]
      exact .settled (by rw [fetch]) (by rw [fetch, found])
    · rw [found] at count quiet
      obtain ⟨call, counted⟩ := callLastUpdate_calls service fetched draft (a :: as) o.world
      show RetryCalls service options draft w
        (.fetchByKey (retryKey draft) (.ok (some fetched)) :: (o.andThen _).calls)
        (o.andThen _).tally
      rw [Outcome.calls_andThen, Outcome.tally_andThen, count, quiet, call, counted,
        Tally.zero_add]
      refine .resent (by rw [fetch]) (by rw [fetch, found]) (List.cons_ne_nil a as) ?_
      rw [fetch, firstUpdate, found]

theorem callUpdate_of_ok {existing entity : K.Entity} {draft : K.Draft} {w w' : σ}
    (call : firstUpdate service options existing draft w = (.ok entity, w')) :
    callUpdate service options existing draft (actionsToSend options existing draft w).1
        (actionsToSend options existing draft w).2.world =
      ⟨w', .ofUpdated 1,
        [.update existing (actionsToSend options existing draft w).1 (.ok entity)]⟩ := by
  unfold firstUpdate at call
  exact callUpdate_of_accepted service options call

theorem callUpdate_of_error {existing : K.Entity} {draft : K.Draft} {w w' : σ} {error : SyncError}
    (call : firstUpdate service options existing draft w = (.error error, w')) :
    callUpdate service options existing draft (actionsToSend options existing draft w).1
        (actionsToSend options existing draft w).2.world =
      Outcome.andThen ⟨w', .zero,
          [.update existing (actionsToSend options existing draft w).1 (.error error)]⟩
        (if error.isConcurrentModification then retryUpdate service options existing draft
         else failUpdate existing draft (actionsToSend options existing draft w).1 error) := by
  unfold firstUpdate at call
  exact callUpdate_of_rejected service options call

theorem update_calls (existing : K.Entity) (draft : K.Draft) (w : σ) :
    UpdateCalls service options existing draft w (update service options existing draft w).calls
      (update service options existing draft w).tally := by
  obtain ⟨count, quiet⟩ := actionsToSend_quiet options existing draft w
  by_cases empty : (actionsToSend options existing draft w).1 = []
  · rw [update_of_empty service options empty, count, quiet]
    exact .nothing empty
  · rw [update_of_loaded service options empty, Outcome.calls_andThen, Outcome.tally_andThen,
      count, quiet, Tally.zero_add]
    rcases call : firstUpdate service options existing draft w with ⟨error | entity, w'⟩
    · rw [callUpdate_of_error service options call]
      rw [Outcome.calls_andThen, Outcome.tally_andThen, Tally.zero_add]
      -- only a conflict leads to further calls
      cases conflict : error.isConcurrentModification with
      | true =>
        refine .again rfl empty (congrArg Prod.fst call) conflict ?_
        rw [call]
        exact retryUpdate_calls service options existing draft w'
      | false => exact .once rfl empty (congrArg Prod.fst call) conflict
    · rw [callUpdate_of_ok service options call]
      exact .once rfl empty (congrArg Prod.fst call) rfl

/-! ### Reading the call sequences -/

/-- The call leaves the record updated. -/
def updates : Entry K → Bool
  | .update _ _ (.ok _) => true
  | _ => false

/-- The call leaves the record failed, if it is the last one. -/
def fails : Entry K → Bool
  | .update _ _ (.error _) => true
  | .fetchByKey _ (.error _) => true
  | .fetchByKey _ (.ok none) => true
  | _ => false

/-- What a record with a stored entity counts, read off its calls. -/
def countOf (calls : List (Entry K)) : Tally :=
  if calls.any updates then .ofUpdated 1
  else if calls.getLast?.any fails then .ofFailed 1
  else .zero

variable {service options} {existing : K.Entity} {draft : K.Draft} {w : σ}
  {calls : List (Entry K)} {t : Tally}

theorem countOf_update (r : Except SyncError K.Entity) (entity : K.Entity)
    (actions : List K.Action) : countOf [.update entity actions r] = updateTally r := by
  cases r with
  | ok _ => rfl
  | error _ => rfl

/-- The counts of a second try can be read off the calls that follow the conflict. -/
theorem RetryCalls.tally_eq (h : RetryCalls service options draft w calls t) :
    t = countOf calls ∧ calls ≠ [] := by
  cases h with
  | @lost f fetch missing =>
    refine ⟨?_, List.cons_ne_nil _ _⟩
    rcases f with error | _ | fetched
    · rfl
    · rfl
    · exact absurd rfl (missing fetched)
  | settled => exact ⟨rfl, List.cons_ne_nil _ _⟩
  | @resent fetched actions r =>
    refine ⟨?_, List.cons_ne_nil _ _⟩
    cases r with
    | ok _ => rfl
    | error _ => rfl

/-- A failed update before other calls does not bear on the counts. -/
theorem countOf_conflict (actions : List K.Action) {r : Except SyncError K.Entity}
    (conflict : conflicts r = true) (more : calls ≠ []) :
    countOf (.update existing actions r :: calls) = countOf calls := by
  cases r with
  | ok _ => cases conflict
  | error error =>
    obtain ⟨x, xs, rfl⟩ := List.exists_cons_of_ne_nil more
    rfl

theorem UpdateCalls.tally_eq (h : UpdateCalls service options existing draft w calls t) :
    t = countOf calls := by
  cases h with
  | nothing => rfl
  | once => exact (countOf_update _ _ _).symm
  | again sent loaded call conflict rest =>
    obtain ⟨counted, more⟩ := rest.tally_eq
    rw [countOf_conflict _ conflict more]
    exact counted

/-- The second update of a record: it meets a conflict, is fetched again and still needs actions.
    Then the fetched entity is sent with the actions found for it. -/
def Resends (service : Service K σ) (options : Options K σ) (existing : K.Entity) (draft : K.Draft)
    (w : σ) (x : Entry K) : Prop :=
  let first := firstUpdate service options existing draft w
  let fetch := service.fetchByKey (retryKey draft) first.2
  (actionsToSend options existing draft w).1 ≠ [] ∧ conflicts first.1 = true ∧
    ∃ fetched, fetch.1 = .ok (some fetched) ∧
      (actionsToSend options fetched draft fetch.2).1 ≠ [] ∧
      x = .update fetched (actionsToSend options fetched draft fetch.2).1
        (firstUpdate service options fetched draft fetch.2).1

theorem UpdateCalls.third_iff (h : UpdateCalls service options existing draft w calls t)
    (x : Entry K) :
    calls[2]? = some x ↔ Resends service options existing draft w x := by
  cases h with
  | nothing empty =>
    refine ⟨(by intro h; cases h), ?_⟩
    intro h
    obtain ⟨loaded, -⟩ := h
    exact absurd empty loaded
  | once sent loaded call final =>
    refine ⟨(by intro h; cases h), ?_⟩
    intro h
    obtain ⟨-, conflict, -⟩ := h
    rw [call, final] at conflict
    cases conflict
  | again sent loaded call conflict rest =>
    -- a third call there is only after a fetch that finds something to send
    have sends : (actionsToSend options existing draft w).1 ≠ [] := by rw [sent]; exact loaded
    have meets : conflicts (firstUpdate service options existing draft w).1 = true := by
      rw [call]; exact conflict
    cases rest with
    | lost fetch missing =>
      refine ⟨(by intro h; cases h), ?_⟩
      intro h
      obtain ⟨-, -, fetched, found, -⟩ := h
      exact absurd (fetch.symm.trans found) (missing fetched)
    | settled fetch empty =>
      refine ⟨(by intro h; cases h), ?_⟩
      intro h
      obtain ⟨-, -, fetched, found, more, -⟩ := h
      rw [fetch] at found
      cases found
      exact absurd empty more
    | resent fetch resent more last =>
      subst resent last
      constructor
      · intro h
        cases h
        exact ⟨sends, meets, _, fetch, more, rfl⟩
      · intro h
        obtain ⟨-, -, fetched, found, -, rfl⟩ := h
        rw [fetch] at found
        cases found
        rfl

/-! ### Whole runs -/

/-- An update is sent, and the hook before updates is run, on a list with actions only. -/
def Loaded : Entry K → Prop
  | .update _ actions _ => actions ≠ []
  | .beforeUpdate actions _ _ _ => actions ≠ []
  | _ => True

variable (service options)

theorem records_of_error {v : Validated K} {w w' : σ} {error : SyncError}
    (fetch : service.fetchMatching v.keys w = (.error error, w')) :
    records service options v w = ⟨w', .ofFailed v.keys.size,
      [.fetchMatching v.keys (.error error), .event (.fetchFailed v.keys error)]⟩ := by
  simp only [records, fetch]

theorem records_of_ok {v : Validated K} {w w' : σ} {existing : List K.Entity}
    (fetch : service.fetchMatching v.keys w = (.ok existing, w')) :
    records service options v w =
      Outcome.andThen ⟨w', .zero, [.fetchMatching v.keys (.ok existing)]⟩
        (Outcome.sequence (record service options) (matchDrafts K existing v.drafts)) := by
  simp only [records, fetch]

/-- A batch without accepted drafts reports its rejections. -/
theorem batch_of_empty {drafts : List (Option K.Draft)}
    (empty : (validate K drafts).drafts = []) (w : σ) :
    batch service options drafts w = Outcome.andThen ⟨w, .ofProcessed drafts.length,
      (validate K drafts).rejected.map fun r => .event (.rejected r)⟩ .idle := by
  simp only [batch, empty, List.isEmpty_nil, if_true]

/-- Any other batch goes on to its records. -/
theorem batch_of_loaded {drafts : List (Option K.Draft)}
    (loaded : (validate K drafts).drafts ≠ []) (w : σ) :
    batch service options drafts w = Outcome.andThen ⟨w, .ofProcessed drafts.length,
        (validate K drafts).rejected.map fun r => .event (.rejected r)⟩
      (records service options (validate K drafts)) := by
  have filled : (validate K drafts).drafts.isEmpty = false := by simpa using loaded
  simp only [batch, filled]
  rfl

theorem draftToCreate_loaded (draft : K.Draft) (w : σ) :
    ∀ x ∈ (draftToCreate options draft w).2.journal, Loaded x := by
  unfold draftToCreate
  cases options.beforeCreate with
  | none => exact fun x hx => absurd hx List.not_mem_nil
  | some hook =>
    intro x hx
    rw [List.mem_singleton.1 hx]
    trivial

theorem callCreate_loaded (draft : K.Draft) (w : σ) :
    ∀ x ∈ (callCreate service draft w).journal, Loaded x := by
  unfold callCreate
  rcases service.create draft w with ⟨error | entity, w'⟩
  · simp [Loaded]
  · simp [Loaded]

theorem create_loaded (draft : K.Draft) (w : σ) :
    ∀ x ∈ (create service options draft w).journal, Loaded x := by
  have before := draftToCreate_loaded options draft w
  unfold create
  rcases found : draftToCreate options draft w with ⟨_ | hooked, o⟩
  · rw [found] at before
    exact before
  · rw [found] at before
    intro x hx
    rcases List.mem_append.1 hx with hx | hx
    · exact before x hx
    · exact callCreate_loaded service hooked o.world x hx

/-- The hook is run on the list of the diff, when that is not empty. -/
theorem actionsToSend_loaded (existing : K.Entity) (draft : K.Draft) (w : σ) :
    ∀ x ∈ (actionsToSend options existing draft w).2.journal, Loaded x := by
  have reported : ∀ x ∈ (K.plan options.config existing draft).issues.map
      (fun i => (Entry.event (.issue existing draft i) : Entry K)), Loaded x := by
    intro x hx
    obtain ⟨i, -, rfl⟩ := List.mem_map.1 hx
    trivial
  unfold actionsToSend
  cases options.beforeUpdate with
  | none => exact reported
  | some hook =>
    by_cases empty : (K.plan options.config existing draft).actions.isEmpty = true
    · simp only [empty, if_true]
      exact reported
    · simp only [empty]
      intro x hx
      rcases List.mem_append.1 hx with hx | hx
      · exact reported x hx
      · rw [List.mem_singleton.1 hx]
        exact fun h => empty (by rw [h]; rfl)

theorem callLastUpdate_loaded (existing : K.Entity) (draft : K.Draft) {actions : List K.Action}
    (loaded : actions ≠ []) (w : σ) :
    ∀ x ∈ (callLastUpdate service existing draft actions w).journal, Loaded x := by
  unfold callLastUpdate
  rcases service.update existing actions w with ⟨error | entity, w'⟩
  · simp [failUpdate, Loaded, loaded]
  · simp [Loaded, loaded]

theorem retryUpdate_loaded (stale : K.Entity) (draft : K.Draft) (w : σ) :
    ∀ x ∈ (retryUpdate service options stale draft w).journal, Loaded x := by
  rcases fetch : service.fetchByKey (retryKey draft) w with ⟨error | _ | fetched, w'⟩
  · rw [retryUpdate_of_error service options fetch]
    simp [Loaded]
  · rw [retryUpdate_of_gone service options fetch]
    simp [Loaded]
  · rw [retryUpdate_of_fetched service options fetch]
    have before := actionsToSend_loaded options fetched draft w'
    intro x hx
    rcases List.mem_append.1 hx with hx | hx
    · rw [List.mem_singleton.1 hx]
      trivial
    · rcases found : actionsToSend options fetched draft w' with ⟨_ | ⟨a, as⟩, o⟩
      · rw [found] at before
        simp only [found] at hx
        exact before x hx
      · rw [found] at before
        simp only [found] at hx
        rcases List.mem_append.1 hx with hx | hx
        · exact before x hx
        · exact callLastUpdate_loaded service fetched draft (List.cons_ne_nil a as) _ x hx

theorem update_loaded (existing : K.Entity) (draft : K.Draft) (w : σ) :
    ∀ x ∈ (update service options existing draft w).journal, Loaded x := by
  have before := actionsToSend_loaded options existing draft w
  by_cases empty : (actionsToSend options existing draft w).1 = []
  · rw [update_of_empty service options empty]
    exact before
  · rw [update_of_loaded service options empty]
    intro x hx
    rcases List.mem_append.1 hx with hx | hx
    · exact before x hx
    · rcases call : firstUpdate service options existing draft w with ⟨error | entity, w'⟩
      · rw [callUpdate_of_error service options call] at hx
        rcases List.mem_append.1 hx with hx | hx
        · rw [List.mem_singleton.1 hx]
          exact empty
        · by_cases conflict : error.isConcurrentModification = true
          · rw [if_pos conflict] at hx
            exact retryUpdate_loaded service options existing draft w' x hx
          · rw [if_neg conflict] at hx
            rw [List.mem_singleton.1 hx]
            trivial
      · rw [callUpdate_of_ok service options call] at hx
        rw [List.mem_singleton.1 hx]
        exact empty

theorem record_loaded (m : Matched K) (w : σ) :
    ∀ x ∈ (record service options m w).journal, Loaded x := by
  cases m with
  | create draft => exact create_loaded service options draft w
  | update existing draft => exact update_loaded service options existing draft w

theorem records_loaded (v : Validated K) (w : σ) :
    ∀ x ∈ (records service options v w).journal, Loaded x := by
  unfold records
  rcases service.fetchMatching v.keys w with ⟨error | stored, w'⟩
  · simp [Loaded]
  · intro x hx
    rcases List.mem_append.1 hx with hx | hx
    · rw [List.mem_singleton.1 hx]
      trivial
    · exact Outcome.sequence_journal (fun m _ => record_loaded service options m) _ x hx

theorem batch_loaded (drafts : List (Option K.Draft)) (w : σ) :
    ∀ x ∈ (batch service options drafts w).journal, Loaded x := by
  intro x hx
  rcases List.mem_append.1 hx with hx | hx
  · obtain ⟨r, -, rfl⟩ := List.mem_map.1 hx
    trivial
  · by_cases empty : (validate K drafts).drafts.isEmpty = true
    · rw [if_pos empty] at hx
      exact absurd hx List.not_mem_nil
    · rw [if_neg empty] at hx
      exact records_loaded service options (validate K drafts) w x hx

theorem run_loaded (drafts : List (Option K.Draft)) (w : σ) :
    ∀ x ∈ (run service options drafts w).journal, Loaded x :=
  Outcome.sequence_journal (fun piece _ => batch_loaded service options piece) w

/-- **The calls of a record.** Whatever the service answers and the hooks do: a record without a
    stored entity makes at most one create call, and none if the hook vetoes; a record with one
    makes the calls of `UpdateCalls`, at most three, where the third is the update that `Resends`
    describes; its counts can be read off its calls; and a run never sends an update, or runs the
    hook before updates, without actions. -/
theorem record_calls :
    (∀ draft w, CreateCalls service options draft w
      (record service options (.create draft) w).calls
      (record service options (.create draft) w).tally) ∧
    (∀ existing draft w,
      let o := record service options (.update existing draft) w
      UpdateCalls service options existing draft w o.calls o.tally ∧
      (∀ x, o.calls[2]? = some x ↔ Resends service options existing draft w x) ∧
      o.tally = countOf o.calls) ∧
    ∀ drafts w, ∀ x ∈ (run service options drafts w).journal, Loaded x := by
  refine ⟨create_calls service options, ?_, run_loaded service options⟩
  intro existing draft w o
  have seen : UpdateCalls service options existing draft w o.calls o.tally :=
    update_calls service options existing draft w
  exact ⟨seen, seen.third_iff, seen.tally_eq⟩

end Sync

end CatalogSync
