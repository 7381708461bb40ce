import Mathlib.Algebra.BigOperators.Group.List.Basic
import Mathlib.Algebra.GroupWithZero.Nat
import Mathlib.Data.List.Induction
import CatalogSync.Proofs.CallDiscipline

/- Sequences of steps. Tallies add up like numbers, and outcomes compose associatively, so a sequence
   can be taken apart at any of its steps. `stages` are the steps of a sequence with what came before
   them; what a sequence counts and does is the sum of its stages. -/
namespace CatalogSync

namespace Tally

attribute [ext] Tally

instance : Zero Tally := ⟨zero⟩

@[simp] theorem zero_eq : (zero : Tally) = 0 := rfl

section Fields

variable (a b : Tally)

@[simp] theorem processed_zero : (0 : Tally).processed = 0 := rfl

@[simp] theorem created_zero : (0 : Tally).created = 0 := rfl

@[simp] theorem updated_zero : (0 : Tally).updated = 0 := rfl

@[simp] theorem failed_zero : (0 : Tally).failed = 0 := rfl

@[simp] theorem processed_add : (a + b).processed = a.processed + b.processed := rfl

@[simp] theorem created_add : (a + b).created = a.created + b.created := rfl

@[simp] theorem updated_add : (a + b).updated = a.updated + b.updated := rfl

@[simp] theorem failed_add : (a + b).failed = a.failed + b.failed := rfl

end Fields

instance : AddCommMonoid Tally where
  add_assoc a b c := by ext <;> simp [Nat.add_assoc]
  zero_add a := by ext <;> simp
  add_zero a := by ext <;> simp
  add_comm a b := by ext <;> simp [Nat.add_comm]
  nsmul := nsmulRec

theorem created_sum (ts : List Tally) : ts.sum.created = (ts.map (·.created)).sum := by
  induction ts with
  | nil => rfl
  | cons t ts ih => simp [ih]

theorem failed_sum (ts : List Tally) : ts.sum.failed = (ts.map (·.failed)).sum := by
  induction ts with
  | nil => rfl
  | cons t ts ih => simp [ih]

theorem updated_sum (ts : List Tally) : ts.sum.updated = (ts.map (·.updated)).sum := by
  induction ts with
  | nil => rfl
  | cons t ts ih => simp [ih]

/-- What was processed comes to its place in a sum. -/
theorem ofProcessed_add_add (n n' : Nat) (a b : Tally) :
    ofProcessed n + a + (ofProcessed n' + b) = ofProcessed (n + n') + (a + b) := by
  have processed : ofProcessed n + ofProcessed n' = ofProcessed (n + n') := rfl
  rw [← processed, add_add_add_comm]

end Tally

/-- A step of a sequence: the steps before it, its input and the world that it starts in. -/
structure Stage (α σ : Type) where
  earlier : List α
  item : α
  world : σ

namespace Outcome

variable {K : Kind} {σ α : Type}

@[simp] theorem world_andThen (o : Outcome K σ) (next : σ → Outcome K σ) :
    (o.andThen next).world = (next o.world).world := rfl

@[simp] theorem world_idle (w : σ) : (idle w : Outcome K σ).world = w := rfl

@[simp] theorem tally_idle (w : σ) : (idle w : Outcome K σ).tally = 0 := rfl

@[simp] theorem journal_idle (w : σ) : (idle w : Outcome K σ).journal = [] := rfl

@[simp] theorem idle_andThen (w : σ) (next : σ → Outcome K σ) :
    (idle w).andThen next = next w := by
  simp [andThen, idle]

@[simp] theorem andThen_idle (o : Outcome K σ) : o.andThen idle = o := by
  simp [andThen, idle]

theorem andThen_assoc (o : Outcome K σ) (f g : σ → Outcome K σ) :
    (o.andThen f).andThen g = o.andThen fun w => (f w).andThen g := by
  simp [andThen, add_assoc]

variable (step : α → σ → Outcome K σ)

theorem sequence_append (as bs : List α) (w : σ) :
    sequence step (as ++ bs) w = (sequence step as w).andThen (sequence step bs) := by
  induction as generalizing w with
  | nil => exact (idle_andThen w _).symm
  | cons a as ih =>
    have rest : (fun w => sequence step (as ++ bs) w) =
        fun w => (sequence step as w).andThen (sequence step bs) := funext ih
    rw [sequence, andThen_assoc, ← rest]
    rfl

@[simp] theorem sequence_singleton (a : α) (w : σ) : sequence step [a] w = step a w :=
  andThen_idle _

theorem sequence_append_singleton (as : List α) (a : α) (w : σ) :
    sequence step (as ++ [a]) w = (sequence step as w).andThen (step a) := by
  have last : sequence step [a] = step a := funext (sequence_singleton step a)
  rw [sequence_append, last]

/-! ### Stages -/

/-- The steps of a sequence that goes on from the steps `earlier` in the world `w`, each with the
    steps before it and the world it starts in. -/
def stagesFrom : List α → List α → σ → List (Stage α σ)
  | _, [], _ => []
  | earlier, a :: as, w => ⟨earlier, a, w⟩ :: stagesFrom (earlier ++ [a]) as (step a w).world

/-- The steps of a sequence, each with the steps before it and the world it starts in. -/
def stages (as : List α) (w : σ) : List (Stage α σ) := stagesFrom step [] as w

theorem stagesFrom_append (earlier as bs : List α) (w : σ) :
    stagesFrom step earlier (as ++ bs) w = stagesFrom step earlier as w ++
      stagesFrom step (earlier ++ as) bs (sequence step as w).world := by
  induction as generalizing earlier w with
  | nil => simp [stagesFrom, sequence]
  | cons a as ih =>
    simp only [List.cons_append, stagesFrom, ih, List.append_assoc, sequence, world_andThen]
    rfl

theorem stages_append_singleton (as : List α) (a : α) (w : σ) :
    stages step (as ++ [a]) w =
      stages step as w ++ [⟨as, a, (sequence step as w).world⟩] := by
  simp [stages, stagesFrom_append, stagesFrom]

/-- The inputs of the stages are those of the sequence. -/
@[simp] theorem map_item_stages (as : List α) (w : σ) :
    (stages step as w).map (·.item) = as := by
  induction as using List.reverseRecOn with
  | nil => rfl
  | append_singleton as a ih => rw [stages_append_singleton, List.map_append, ih]; rfl

/-- A stage starts in the world that the steps before it left. -/
theorem of_mem_stages {as : List α} {w : σ} {s : Stage α σ} (h : s ∈ stages step as w) :
    (∃ later, as = s.earlier ++ s.item :: later) ∧
      s.world = (sequence step s.earlier w).world := by
  induction as using List.reverseRecOn with
  | nil => exact absurd h List.not_mem_nil
  | append_singleton as a ih =>
    rw [stages_append_singleton, List.mem_append, List.mem_singleton] at h
    rcases h with earlier | rfl
    · obtain ⟨⟨later, split⟩, starts⟩ := ih earlier
      exact ⟨⟨later ++ [a], by simp [split]⟩, starts⟩
    · exact ⟨⟨[], rfl⟩, rfl⟩

/-- A sequence counts what its stages count. -/
theorem tally_sequence (as : List α) (w : σ) :
    (sequence step as w).tally = ((stages step as w).map fun s => (step s.item s.world).tally).sum := by
  induction as using List.reverseRecOn with
  | nil => rfl
  | append_singleton as a ih =>
    rw [sequence_append_singleton, stages_append_singleton, tally_andThen, ih]
    simp

/-- The journal of a sequence is that of its stages, one after the other. -/
theorem journal_sequence (as : List α) (w : σ) :
    (sequence step as w).journal =
      (stages step as w).flatMap fun s => (step s.item s.world).journal := by
  induction as using List.reverseRecOn with
  | nil => rfl
  | append_singleton as a ih =>
    rw [sequence_append_singleton, stages_append_singleton, journal_andThen, ih]
    simp

/-- The stages lead from the world `w` to `w'`: each starts in the world that the one before it has
    left. -/
def Chained (w : σ) : List (Stage α σ) → σ → Prop
  | [], w' => w' = w
  | s :: ss, w' => s.world = w ∧ Chained (step s.item s.world).world ss w'

theorem chained_stagesFrom (earlier as : List α) (w : σ) :
    Chained step w (stagesFrom step earlier as w) (sequence step as w).world := by
  induction as generalizing earlier w with
  | nil => rfl
  | cons a as ih => exact ⟨rfl, ih (earlier ++ [a]) _⟩

/-- The stages of a sequence lead from its start to its end. -/
theorem chained_stages (as : List α) (w : σ) :
    Chained step w (stages step as w) (sequence step as w).world :=
  chained_stagesFrom step [] as w

end Outcome

namespace Sync

/-- The pieces of a list make up the list. -/
theorem flatten_pieces {α : Type} (n : Nat) (xs : List α) : (pieces n xs).flatten = xs := by
  fun_induction pieces n xs with
  | case1 => rfl
  | case2 x xs ih => rw [List.flatten_cons, ih, List.cons_append, List.take_append_drop]

/-- A list that fits into one piece is not cut. -/
theorem pieces_of_length_le {α : Type} {n : Nat} {x : α} {xs : List α}
    (fits : (x :: xs).length ≤ n) : pieces n (x :: xs) = [x :: xs] := by
  have rest : xs.length ≤ n - 1 := by
    rw [List.length_cons] at fits
    omega
  rw [pieces, List.take_of_length_le rest, List.drop_of_length_le rest, pieces]

/-- Drafts that fit into one batch make one batch. -/
theorem run_of_length_le {K : Kind} {σ : Type} (service : Service K σ) (options : Options K σ)
    {d : Option K.Draft} {drafts : List (Option K.Draft)}
    (fits : (d :: drafts).length ≤ options.config.batchSize) :
    run service options (d :: drafts) = batch service options (d :: drafts) := by
  funext w
  rw [run, pieces_of_length_le fits, Outcome.sequence_singleton]

end Sync

end CatalogSync
