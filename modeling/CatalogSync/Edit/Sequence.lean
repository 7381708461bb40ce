/- Edits of lists, shared by the effects of actions: putting an element at a position, changing
   the first element with a property, and applying a list of actions one after the other. -/
namespace CatalogSync.Edit

/-- Puts an element at a position, or at the end of a shorter list. -/
def insertAt {α : Type} : Nat → α → List α → List α
  | _, a, [] => [a]
  | 0, a, x :: xs => a :: x :: xs
  | n + 1, a, x :: xs => x :: insertAt n a xs

/-- Changes the first element with a property. -/
def changeFirst {α : Type} (p : α → Bool) (f : α → α) : List α → List α
  | [] => []
  | x :: xs => if p x then f x :: xs else x :: changeFirst p f xs

/-- Takes the first element with a property out of a list and puts it back at a position. -/
def moveFirst {α : Type} (p : α → Bool) (n : Nat) (xs : List α) : List α :=
  match xs.find? p with
  | some x => insertAt n x (xs.eraseP p)
  | none => xs

/-- Applies actions in sequence. -/
def replay {α β : Type} (apply : β → α → α) (actions : List β) (a : α) : α :=
  actions.foldl (fun a b => apply b a) a

@[simp] theorem replay_nil {α β : Type} (apply : β → α → α) (a : α) : replay apply [] a = a := rfl

@[simp] theorem replay_cons {α β : Type} (apply : β → α → α) (b : β) (bs : List β) (a : α) :
    replay apply (b :: bs) a = replay apply bs (apply b a) := rfl

theorem replay_append {α β : Type} (apply : β → α → α) (bs cs : List β) (a : α) :
    replay apply (bs ++ cs) a = replay apply cs (replay apply bs a) := by
  simp [replay]

theorem length_insertAt {α : Type} : ∀ (n : Nat) (a : α) (xs : List α),
    (insertAt n a xs).length = xs.length + 1
  | _, _, [] => by simp [insertAt]
  | 0, _, _ :: _ => by simp [insertAt]
  | n + 1, a, _ :: xs => by simp [insertAt, length_insertAt n a xs]

theorem insertAt_eq_insertIdx {α : Type} (a : α) : ∀ (n : Nat) (xs : List α),
    insertAt n a xs = xs.insertIdx (min n xs.length) a
  | n, [] => by simp [insertAt]
  | 0, _ :: _ => by simp [insertAt]
  | n + 1, x :: xs => by
    rw [insertAt, insertAt_eq_insertIdx a n xs, List.length_cons, Nat.succ_min_succ]
    rfl

theorem insertIdx_append {α : Type} (a : α) (ys xs : List α) :
    (xs ++ ys).insertIdx xs.length a = xs ++ a :: ys := by
  induction xs with
  | nil => rfl
  | cons x xs ih => exact congrArg (x :: ·) ih

theorem insertAt_append {α : Type} (a : α) (ys xs : List α) :
    insertAt xs.length a (xs ++ ys) = xs ++ a :: ys := by
  rw [insertAt_eq_insertIdx, List.length_append, Nat.min_eq_left (Nat.le_add_right ..),
    insertIdx_append]

end CatalogSync.Edit
