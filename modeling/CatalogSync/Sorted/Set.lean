import CatalogSync.Sorted.Key

/- Finite sets kept as strictly ascending lists. The list is determined by the members
   (`SortedSet.ext`), so equality of sets is equality of values, and reading a set in order needs
   no further sorting. -/
namespace CatalogSync

/-- A finite set; its members stand in strictly ascending order. -/
structure SortedSet (κ : Type) [LT κ] where
  elems : List κ
  ascending : elems.Pairwise (· < ·)

namespace SortedSet

variable {κ : Type} [LT κ]

instance [DecidableEq κ] : DecidableEq (SortedSet κ) := fun a b =>
  match a, b with
  | ⟨x, _⟩, ⟨y, _⟩ =>
    if h : x = y then isTrue (by subst h; rfl) else isFalse (fun e => h (by cases e; rfl))

instance [Repr κ] : Repr (SortedSet κ) := ⟨fun s n => reprPrec s.elems n⟩

def empty : SortedSet κ := ⟨[], List.Pairwise.nil⟩

instance : EmptyCollection (SortedSet κ) := ⟨empty⟩

instance : Inhabited (SortedSet κ) := ⟨empty⟩

instance : Membership κ (SortedSet κ) := ⟨fun s k => k ∈ s.elems⟩

theorem mem_def {s : SortedSet κ} {k : κ} : k ∈ s ↔ k ∈ s.elems := Iff.rfl

@[simp] theorem not_mem_empty (a : κ) : ¬ a ∈ (empty : SortedSet κ) := List.not_mem_nil

def toList (s : SortedSet κ) : List κ := s.elems

def size (s : SortedSet κ) : Nat := s.elems.length

def isEmpty (s : SortedSet κ) : Bool := s.elems.isEmpty

def contains [DecidableEq κ] (s : SortedSet κ) (k : κ) : Bool := s.elems.contains k

@[simp] theorem contains_iff [DecidableEq κ] {s : SortedSet κ} {k : κ} :
    s.contains k = true ↔ k ∈ s := by
  simp [contains, mem_def]

variable [LinearKey κ]

/-- Sets with the same members are equal. -/
theorem ext {s t : SortedSet κ} (h : ∀ a, a ∈ s ↔ a ∈ t) : s = t := by
  obtain ⟨xs, hx⟩ := s
  obtain ⟨ys, hy⟩ := t
  have : xs = ys := eq_of_ascending LinearKey.asymm hx hy h
  subst this
  rfl

theorem nodup_toList (s : SortedSet κ) : s.toList.Nodup := s.ascending.imp LinearKey.ne_of_lt

variable [DecidableLT κ]

/-- Puts `k` into its place; a member that is there already stays alone. -/
def insertElem (k : κ) : List κ → List κ
  | [] => [k]
  | x :: xs => if k < x then k :: x :: xs else if x < k then x :: insertElem k xs else x :: xs

theorem mem_insertElem {a k : κ} : ∀ {xs : List κ}, a ∈ insertElem k xs ↔ a = k ∨ a ∈ xs
  | [] => by simp [insertElem]
  | x :: xs => by
    have ih := @mem_insertElem a k xs
    simp only [insertElem]
    split
    · simp
    · split
      · simp only [List.mem_cons, ih]
        constructor
        · rintro (h | h | h) <;> simp [h]
        · rintro (h | h | h) <;> simp [h]
      · have hk : k = x := by
          rcases LinearKey.total k x with h | h | h
          · contradiction
          · exact h
          · contradiction
        subst hk
        simp

theorem insertElem_ascending (k : κ) : ∀ {xs : List κ}, xs.Pairwise (· < ·) →
    (insertElem k xs).Pairwise (· < ·)
  | [], _ => by simp [insertElem]
  | x :: xs, h => by
    have hx := List.pairwise_cons.1 h
    simp only [insertElem]
    split
    · next hk =>
      exact List.pairwise_cons.2 ⟨fun a ha => (List.mem_cons.1 ha).elim (· ▸ hk)
        (fun m => LinearKey.trans hk (hx.1 a m)), h⟩
    · split
      · next hk =>
        exact List.pairwise_cons.2 ⟨fun a ha => (mem_insertElem.1 ha).elim (· ▸ hk) (hx.1 a),
          insertElem_ascending k hx.2⟩
      · exact h

def insert (s : SortedSet κ) (k : κ) : SortedSet κ :=
  ⟨insertElem k s.elems, insertElem_ascending k s.ascending⟩

/-- The set of the elements of a list. -/
def ofList (xs : List κ) : SortedSet κ := xs.foldl insert empty

@[simp] theorem mem_insert {s : SortedSet κ} {a k : κ} : a ∈ s.insert k ↔ a = k ∨ a ∈ s :=
  mem_insertElem

theorem mem_foldl_insert {a : κ} : ∀ (xs : List κ) (s : SortedSet κ),
    a ∈ xs.foldl insert s ↔ a ∈ s ∨ a ∈ xs
  | [], s => by simp
  | x :: xs, s => by
    rw [List.foldl_cons, mem_foldl_insert xs, mem_insert, List.mem_cons]
    constructor
    · rintro ((h | h) | h) <;> simp [h]
    · rintro (h | h | h) <;> simp [h]

@[simp] theorem mem_ofList {a : κ} {xs : List κ} : a ∈ ofList xs ↔ a ∈ xs := by
  simp [ofList, mem_foldl_insert]

omit [LinearKey κ] in
theorem length_insertElem_le (k : κ) : ∀ xs : List κ, (insertElem k xs).length ≤ xs.length + 1
  | [] => Nat.le_refl 1
  | x :: xs => by
    have ih := length_insertElem_le k xs
    simp only [insertElem]
    split
    · exact Nat.le_refl _
    · split
      · exact Nat.succ_le_succ ih
      · exact Nat.le_succ _

theorem ofList_append_singleton (xs : List κ) (x : κ) :
    ofList (xs ++ [x]) = (ofList xs).insert x := by
  simp [ofList]

/-- A set has at most as many members as the list that it is made from. -/
theorem size_ofList_le (xs : List κ) : (ofList xs).size ≤ xs.length := by
  have larger : ∀ (xs : List κ) (s : SortedSet κ),
      (xs.foldl insert s).size ≤ s.size + xs.length := by
    intro xs
    induction xs with
    | nil => exact fun s => Nat.le_refl _
    | cons x xs ih =>
      intro s
      have one : (s.insert x).size ≤ s.size + 1 := length_insertElem_le x s.elems
      have rest : (xs.foldl insert (s.insert x)).size ≤ (s.insert x).size + xs.length := ih _
      rw [List.foldl_cons, List.length_cons]
      omega
  calc (ofList xs).size ≤ (empty : SortedSet κ).size + xs.length := larger xs empty
    _ = xs.length := Nat.zero_add _

/-- A set is rebuilt from its own members. -/
@[simp] theorem ofList_elems (s : SortedSet κ) : ofList s.elems = s :=
  ext fun _ => mem_ofList

end SortedSet

end CatalogSync
