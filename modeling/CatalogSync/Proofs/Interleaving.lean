import CatalogSync.Proofs.RunRule
import CatalogSync.Sync.Schedule

/- The records of a batch side by side. A record that is taken to its end without interruption is the
   record of a plain run (`finish_step`), so a run in turn is a plain run (`runOn_inTurn`). What
   every step of a record keeps, every order of the steps keeps (`foldl_advance`). In any order all
   records come to their ends, and the journal of a batch merges the journals of its records
   (`tasks_interleave`, `merges_interleave`). -/
namespace CatalogSync

/-! ### Merging lists -/

/-- The list `whole` is made of the elements of the parts, each part in its own order. -/
inductive Merges {α : Type} : List (List α) → List α → Prop
  | nil (n : Nat) : Merges (List.replicate n []) []
  | append {before after : List (List α)} {part whole : List α} (more : List α)
      (h : Merges (before ++ part :: after) whole) :
      Merges (before ++ (part ++ more) :: after) (whole ++ more)

namespace Merges

variable {α β : Type} {parts : List (List α)} {whole : List α}

theorem perm (h : Merges parts whole) : whole.Perm parts.flatten := by
  induction h with
  | nil n => simp
  | @append before after part whole more h ih =>
    have moved : (part ++ after.flatten ++ more).Perm (part ++ more ++ after.flatten) := by
      rw [List.append_assoc, List.append_assoc]
      exact List.perm_append_comm.append_left part
    simp only [List.flatten_append, List.flatten_cons] at ih ⊢
    exact (ih.append_right more).trans (by rw [List.append_assoc]; exact moved.append_left _)

theorem filterMap (f : α → Option β) (h : Merges parts whole) :
    Merges (parts.map (·.filterMap f)) (whole.filterMap f) := by
  induction h with
  | nil n => simpa using Merges.nil n
  | append more h ih =>
    simp only [List.map_append, List.map_cons, List.filterMap_append] at ih ⊢
    exact ih.append _

theorem filter (p : α → Bool) (h : Merges parts whole) :
    Merges (parts.map (·.filter p)) (whole.filter p) := by
  simpa only [← List.filterMap_eq_filter] using h.filterMap (Option.guard (p ·))

end Merges

namespace Sync

variable {K : Kind} {σ : Type} (service : Service K σ) (options : Options K σ)

/-! ### Single steps -/

section Steps

variable {w w' : σ} {existing : K.Entity} {draft : K.Draft} {actions : List K.Action}

theorem step_creating {answer : Except SyncError K.Entity}
    (call : service.create draft w = (answer, w')) :
    step service options (.creating draft) w =
      (⟨w', .zero, [.create draft answer]⟩, .created draft answer) := by
  simp only [step, call]

theorem step_updating {last : Bool} {answer : Except SyncError K.Entity}
    (call : service.update existing actions w = (answer, w')) :
    step service options (.updating last existing draft actions) w =
      (⟨w', .zero, [.update existing actions answer]⟩,
        .updated last existing draft actions answer) := by
  simp only [step, call]

theorem step_fetching {stale : K.Entity} {answer : Except SyncError (Option K.Entity)}
    (call : service.fetchByKey (retryKey draft) w = (answer, w')) :
    step service options (.fetching stale draft) w =
      (⟨w', .zero, [.fetchByKey (retryKey draft) answer]⟩, .fetched stale draft answer) := by
  unfold retryKey at call
  simp only [step, call, retryKey]

theorem endUpdate_of_conflict {last : Bool} {error : SyncError}
    (again : (!last && error.isConcurrentModification) = true) :
    endUpdate last existing draft actions w (.error error) =
      (.idle w, .fetching existing draft) := by
  simp only [endUpdate, again]
  rfl

theorem endUpdate_of_final {last : Bool} {error : SyncError}
    (final : (!last && error.isConcurrentModification) = false) :
    endUpdate last existing draft actions w (.error error) =
      (failUpdate existing draft actions error w, .finished) := by
  simp only [endUpdate, final]
  rfl

end Steps

/-! ### A record without interruption -/

/-- What is left of a record, without interruption. -/
def finish : Phase K → σ → Outcome K σ
  | .ready m => record service options m
  | .creating draft => callCreate service draft
  | .created draft answer => fun w => (endCreate draft w answer).1
  | .updating false existing draft actions => callUpdate service options existing draft actions
  | .updating true existing draft actions => callLastUpdate service existing draft actions
  | .updated _ _ _ _ (.ok _) => fun w => ⟨w, .ofUpdated 1, []⟩
  | .updated false existing draft actions (.error error) =>
    if error.isConcurrentModification then retryUpdate service options existing draft
    else failUpdate existing draft actions error
  | .updated true existing draft actions (.error error) =>
    failUpdate existing draft actions error
  | .fetching stale draft => retryUpdate service options stale draft
  | .fetched _ draft (.ok (some fetched)) => fun w =>
    match actionsToSend options fetched draft w with
    | ([], o) => o
    | (actions, o) => o.andThen (callLastUpdate service fetched draft actions)
  | .fetched stale draft answer => fun w => (endFetch options stale draft w answer).1
  | .finished => .idle

/-- An update that starts goes on with its call, or ends. -/
theorem startUpdate_finish (last : Bool) (existing : K.Entity) (draft : K.Draft) (w : σ) :
    (startUpdate options last existing draft w).1.andThen
        (finish service options (startUpdate options last existing draft w).2) =
      match actionsToSend options existing draft w with
      | ([], o) => o
      | (actions, o) =>
        o.andThen (finish service options (.updating last existing draft actions)) := by
  unfold startUpdate
  rcases actionsToSend options existing draft w with ⟨_ | ⟨a, as⟩, o⟩
  · exact Outcome.andThen_idle o
  · rfl

/-- A phase whose step is its last one. -/
theorem finish_of_last {p : Phase K} {w : σ}
    (last : step service options p w = (finish service options p w, .finished)) :
    finish service options p w =
      (step service options p w).1.andThen
        (finish service options (step service options p w).2) := by
  rw [last]
  exact (Outcome.andThen_idle _).symm

/-- A record takes a step, and then finishes from the phase that it has come to. -/
theorem finish_step (p : Phase K) (w : σ) :
    finish service options p w =
      (step service options p w).1.andThen
        (finish service options (step service options p w).2) := by
  cases p with
  | ready m =>
    cases m with
    | create draft =>
      show create service options draft w = (startCreate options draft w).1.andThen
        (finish service options (startCreate options draft w).2)
      unfold startCreate
      rcases found : draftToCreate options draft w with ⟨_ | hooked, o⟩
      · rw [create_of_vetoed service options found]
        exact (Outcome.andThen_idle o).symm
      · rw [create_of_passed service options found]
        rfl
    | update existing draft =>
      exact (startUpdate_finish service options false existing draft w).symm
  | creating draft =>
    show callCreate service draft w = _
    rcases call : service.create draft w with ⟨error | entity, w'⟩
    · rw [step_creating service options call, callCreate_of_error service call]
      rfl
    · rw [step_creating service options call, callCreate_of_ok service call]
      rfl
  | created draft answer =>
    cases answer with
    | error error => exact finish_of_last service options rfl
    | ok entity => exact finish_of_last service options rfl
  | updating last existing draft actions =>
    rcases call : service.update existing actions w with ⟨error | entity, w'⟩
    · rw [step_updating service options call]
      cases last with
      | false => exact callUpdate_of_rejected service options call
      | true => exact callLastUpdate_of_error service call
    · rw [step_updating service options call]
      cases last with
      | false => exact callUpdate_of_accepted service options call
      | true => exact callLastUpdate_of_ok service call
  | updated last existing draft actions answer =>
    cases answer with
    | ok entity => cases last <;> exact finish_of_last service options rfl
    | error error =>
      cases last with
      | true => exact finish_of_last service options rfl
      | false =>
        cases conflict : error.isConcurrentModification with
        | true =>
          show (if error.isConcurrentModification then retryUpdate service options existing draft
            else failUpdate existing draft actions error) w = _
          rw [if_pos conflict]
          show _ = (endUpdate false existing draft actions w (.error error)).1.andThen
            (finish service options (endUpdate false existing draft actions w (.error error)).2)
          rw [endUpdate_of_conflict (by rw [conflict]; rfl), Outcome.idle_andThen]
          rfl
        | false =>
          refine finish_of_last service options ?_
          show endUpdate false existing draft actions w (.error error) = _
          rw [endUpdate_of_final (by rw [conflict]; rfl), finish, if_neg (by simp [conflict])]
  | fetching stale draft =>
    show retryUpdate service options stale draft w = _
    rcases fetch : service.fetchByKey (retryKey draft) w with ⟨error | _ | fetched, w'⟩
    · rw [step_fetching service options fetch, retryUpdate_of_error service options fetch]
      rfl
    · rw [step_fetching service options fetch, retryUpdate_of_gone service options fetch]
      rfl
    · rw [step_fetching service options fetch, retryUpdate_of_fetched service options fetch]
      rfl
  | fetched stale draft answer =>
    rcases answer with error | _ | fetched
    · exact finish_of_last service options rfl
    · exact finish_of_last service options rfl
    · exact (startUpdate_finish service options true fetched draft w).symm
  | finished => exact finish_of_last service options rfl

theorem left_startUpdate (last : Bool) (existing : K.Entity) (draft : K.Draft) (w : σ) :
    (startUpdate options last existing draft w).2.left ≤ if last then 2 else 6 := by
  unfold startUpdate
  rcases actionsToSend options existing draft w with ⟨_ | ⟨a, as⟩, o⟩
  · exact Nat.zero_le _
  · cases last with
    | false => exact Nat.le_refl 6
    | true => exact Nat.le_refl 2

/-- With every step, one less is left. -/
theorem left_step (p : Phase K) (w : σ) : (step service options p w).2.left ≤ p.left - 1 := by
  cases p with
  | ready m =>
    cases m with
    | create draft =>
      show (startCreate options draft w).2.left ≤ 6
      unfold startCreate
      rcases draftToCreate options draft w with ⟨_ | hooked, o⟩
      · exact Nat.zero_le 6
      · exact (by decide : 2 ≤ 6)
    | update existing draft => exact left_startUpdate options false existing draft w
  | creating draft => exact Nat.le_refl 1
  | created draft answer => cases answer <;> exact Nat.le_refl 0
  | updating last existing draft actions => cases last <;> exact Nat.le_refl _
  | updated last existing draft actions answer =>
    cases answer with
    | ok entity => exact Nat.zero_le _
    | error error =>
      cases last with
      | true => exact Nat.le_refl 0
      | false =>
        show (endUpdate false existing draft actions w (.error error)).2.left ≤ 4
        cases conflict : error.isConcurrentModification with
        | true => rw [endUpdate_of_conflict (by rw [conflict]; rfl)]; exact Nat.le_refl 4
        | false => rw [endUpdate_of_final (by rw [conflict]; rfl)]; exact Nat.zero_le 4
  | fetching stale draft => exact Nat.le_refl 3
  | fetched stale draft answer =>
    rcases answer with error | _ | fetched
    · exact Nat.zero_le _
    · exact Nat.zero_le _
    · exact left_startUpdate options true fetched draft w
  | finished => exact Nat.le_refl 0

theorem eq_finished_of_left {p : Phase K} (h : p.left = 0) : p = .finished := by
  cases p with
  | updating last _ _ _ => cases last <;> cases h
  | updated last _ _ _ _ => cases last <;> cases h
  | finished => rfl
  | _ => cases h

theorem left_le (p : Phase K) : p.left ≤ 7 := by
  cases p with
  | updating last _ _ _ => cases last <;> simp [Phase.left]
  | updated last _ _ _ _ => cases last <;> simp [Phase.left]
  | _ => simp [Phase.left]

/-! ### Several records -/

/-- The record after its next step, which starts in the world `w`. -/
def moved (task : Task K) (w : σ) : Task K :=
  let (o, phase) := step service options task.phase w
  ⟨task.record, phase, task.tally + o.tally, task.journal ++ o.journal⟩

/-- The record at its end, without interruption from the world `w` on. -/
def ended (task : Task K) (w : σ) : Task K :=
  let o := finish service options task.phase w
  ⟨task.record, .finished, task.tally + o.tally, task.journal ++ o.journal⟩

section Pools

variable {before after tasks : List (Task K)} {task : Task K} {o : Outcome K σ}

theorem advance_at :
    advance service options ⟨before ++ task :: after, o⟩ before.length =
      ⟨before ++ moved service options task o.world :: after,
        o.andThen fun w => (step service options task.phase w).1⟩ := by
  have here : (before ++ task :: after)[before.length]? = some task := by simp
  simp only [advance, here, List.set_append_right _ _ (Nat.le_refl _), Nat.sub_self,
    List.set_cons_zero]
  rfl

/-- Taking on the record at a place does nothing, or one record takes its next step. -/
theorem advance_cases (p : Pool K σ) (place : Nat) :
    advance service options p place = p ∨
      ∃ before task after, p.tasks = before ++ task :: after ∧
        advance service options p place =
          ⟨before ++ moved service options task p.outcome.world :: after,
            p.outcome.andThen fun w => (step service options task.phase w).1⟩ := by
  cases found : p.tasks[place]? with
  | none => exact .inl (by simp only [advance, found])
  | some task =>
    obtain ⟨inside, here⟩ := List.getElem?_eq_some_iff.1 found
    have split : p.tasks = p.tasks.take place ++ task :: p.tasks.drop (place + 1) := by
      rw [← here, List.getElem_cons_drop, List.take_append_drop]
    have length : (p.tasks.take place).length = place := by
      rw [List.length_take]
      omega
    refine .inr ⟨_, task, _, split, ?_⟩
    have moves : advance service options
        ⟨p.tasks.take place ++ task :: p.tasks.drop (place + 1), p.outcome⟩
        (p.tasks.take place).length = _ := advance_at service options
    rw [length, ← split] at moves
    exact moves

/-- What holds of a pool and is kept by each step of a record holds after any steps. -/
theorem foldl_advance {P : Pool K σ → Prop}
    (keeps : ∀ before task after o, P ⟨before ++ task :: after, o⟩ →
      P ⟨before ++ moved service options task o.world :: after,
        o.andThen fun w => (step service options task.phase w).1⟩)
    (picks : List Nat) {p : Pool K σ} (start : P p) :
    P (picks.foldl (advance service options) p) := by
  induction picks generalizing p with
  | nil => exact start
  | cons place picks ih =>
    refine ih ?_
    rcases advance_cases service options p place with stays | ⟨before, task, after, split, moves⟩
    · rw [stays]
      exact start
    · rw [moves]
      refine keeps before task after p.outcome ?_
      rw [← split]
      exact start

/-- As many steps as are left of a record take it to its end. -/
theorem foldl_replicate {n : Nat} (enough : task.phase.left ≤ n) :
    (List.replicate n before.length).foldl (advance service options)
        ⟨before ++ task :: after, o⟩ =
      ⟨before ++ ended service options task o.world :: after,
        o.andThen (finish service options task.phase)⟩ := by
  induction n generalizing task o with
  | zero =>
    have finished : task.phase = .finished := eq_finished_of_left (Nat.le_zero.1 enough)
    have same : ended service options task o.world = task := by
      cases task with
      | mk record phase tally journal =>
        obtain rfl : phase = .finished := finished
        show (⟨record, .finished, tally + 0, journal ++ []⟩ : Task K) = _
        rw [add_zero, List.append_nil]
    rw [same, finished]
    exact congrArg (Pool.mk _) (Outcome.andThen_idle o).symm
  | succ n ih =>
    have next := left_step service options task.phase o.world
    have rest : (moved service options task o.world).phase.left ≤ n := by
      show (step service options task.phase o.world).2.left ≤ n
      omega
    have same : ended service options (moved service options task o.world)
        (step service options task.phase o.world).1.world = ended service options task o.world := by
      have ends := finish_step service options task.phase o.world
      unfold ended moved
      rw [ends]
      simp only [Outcome.tally_andThen, Outcome.journal_andThen, add_assoc, List.append_assoc]
    rw [List.replicate_succ, List.foldl_cons, advance_at, ih rest]
    refine congrArg₂ Pool.mk ?_ ?_
    · rw [Outcome.world_andThen, same]
    · have ends : finish service options task.phase = fun w =>
          (step service options task.phase w).1.andThen
            (finish service options (step service options task.phase w).2) :=
        funext (finish_step service options task.phase)
      rw [ends]
      simp only [Outcome.andThen, add_assoc, List.append_assoc]
      rfl

/-- In turn, records are taken to their ends one after the other. -/
theorem foldl_turns (tasks after : List (Task K)) (o : Outcome K σ) :
    (turns tasks.length).foldl (advance service options) ⟨tasks ++ after, o⟩ =
      ⟨((Outcome.stages (fun task : Task K => finish service options task.phase) tasks
          o.world).map fun s => ended service options s.item s.world) ++ after,
        o.andThen (Outcome.sequence (fun task => finish service options task.phase) tasks)⟩ := by
  induction tasks using List.reverseRecOn generalizing after with
  | nil => exact congrArg (Pool.mk _) (Outcome.andThen_idle o).symm
  | append_singleton tasks task ih =>
    have more : turns (tasks ++ [task]).length =
        turns tasks.length ++ List.replicate 7 tasks.length := by
      simp [turns, List.range_succ]
    have places : tasks.length = ((Outcome.stages
        (fun task : Task K => finish service options task.phase) tasks o.world).map
          fun s => ended service options s.item s.world).length := by
      have items := congrArg List.length (Outcome.map_item_stages
        (fun task : Task K => finish service options task.phase) tasks o.world)
      rw [List.length_map] at items ⊢
      exact items.symm
    rw [more, List.foldl_append, List.append_assoc, List.singleton_append, ih (task :: after)]
    nth_rewrite 1 [places]
    rw [foldl_replicate service options (left_le task.phase), Outcome.stages_append_singleton,
      List.map_append, List.append_assoc]
    refine congrArg₂ Pool.mk ?_ ?_
    · simp
    · rw [Outcome.andThen_assoc]
      congr 1
      funext w
      exact (Outcome.sequence_append_singleton _ tasks task w).symm

theorem length_foldl_advance (picks : List Nat) (p : Pool K σ) :
    (picks.foldl (advance service options) p).tasks.length = p.tasks.length :=
  foldl_advance service options (P := fun q => q.tasks.length = p.tasks.length)
    (fun _ _ _ _ same => by simpa using same) picks rfl

end Pools

/-! ### The records of a batch -/

section Batch

variable (picks : List Nat) (records : List (Matched K)) (w : σ)

/-- In any order, every record is there and comes to its end. -/
theorem tasks_interleave :
    (interleave service options picks records w).tasks.map (·.record) = records ∧
      ∀ task ∈ (interleave service options picks records w).tasks, task.phase = .finished := by
  constructor
  · refine foldl_advance service options (P := fun p => p.tasks.map (·.record) = records) ?_ _ ?_
    · intro before task after o same
      simpa [moved] using same
    · show (records.map _).map _ = records
      rw [List.map_map]
      exact List.map_id records
  · let p := picks.foldl (advance service options) (.start records w)
    have length : p.tasks.length = records.length := by
      rw [length_foldl_advance]
      exact List.length_map _
    have ends := foldl_turns service options p.tasks [] p.outcome
    rw [List.append_nil, length] at ends
    intro task there
    rw [interleave, List.foldl_append] at there
    have there : task ∈ ((turns records.length).foldl (advance service options) p).tasks := there
    have whole : (turns records.length).foldl (advance service options) p = _ := ends
    rw [whole, List.append_nil] at there
    obtain ⟨s, -, rfl⟩ := List.mem_map.1 there
    rfl

/-- In any order, what a batch counts and does is what its records count and do. -/
theorem merges_interleave :
    let p := interleave service options picks records w
    p.outcome.tally = (p.tasks.map (·.tally)).sum ∧
      Merges (p.tasks.map (·.journal)) p.outcome.journal := by
  refine foldl_advance service options (P := fun p => p.outcome.tally =
    (p.tasks.map (·.tally)).sum ∧ Merges (p.tasks.map (·.journal)) p.outcome.journal) ?_ _ ⟨?_, ?_⟩
  · intro before task after o h
    obtain ⟨tally, journal⟩ := h
    refine ⟨?_, ?_⟩
    · have tally : o.tally = _ := tally
      rw [Outcome.tally_andThen, tally]
      simp only [List.map_append, List.map_cons, List.sum_append, List.sum_cons, moved]
      ac_rfl
    · rw [List.map_append, List.map_cons] at journal ⊢
      exact journal.append _
  · show (0 : Tally) = ((records.map _).map _).sum
    rw [List.map_map]
    exact (List.sum_eq_zero (by simp)).symm
  · show Merges ((records.map _).map _) []
    rw [List.map_map, show ((fun task : Task K => task.journal) ∘ fun m =>
      ⟨m, .ready m, .zero, []⟩) = fun _ => [] from rfl, List.map_const']
    exact .nil records.length

end Batch

/-! ### Batches and runs -/

theorem recordsOn_of_error {picks : List Nat} {v : Validated K} {w w' : σ} {error : SyncError}
    (fetch : service.fetchMatching v.keys w = (.error error, w')) :
    recordsOn service options picks v w = ⟨w', .ofFailed v.keys.size,
      [.fetchMatching v.keys (.error error), .event (.fetchFailed v.keys error)]⟩ := by
  simp only [recordsOn, fetch]

theorem recordsOn_of_ok {picks : List Nat} {v : Validated K} {w w' : σ}
    {existing : List K.Entity} (fetch : service.fetchMatching v.keys w = (.ok existing, w')) :
    recordsOn service options picks v w =
      Outcome.andThen ⟨w', .zero, [.fetchMatching v.keys (.ok existing)]⟩ fun w =>
        (interleave service options picks (matchDrafts K existing v.drafts) w).outcome := by
  simp only [recordsOn, fetch]

/-- Drafts that fit into one batch make one batch, in any order. -/
theorem runOn_of_length_le (schedule : Schedule) {d : Option K.Draft}
    {drafts : List (Option K.Draft)}
    (fits : (d :: drafts).length ≤ options.config.batchSize) :
    runOn service options schedule (d :: drafts) =
      batchOn service options (schedule 0) (d :: drafts) := by
  funext w
  rw [runOn, pieces_of_length_le fits]
  exact Outcome.sequence_singleton _ _ _

end Sync

end CatalogSync
