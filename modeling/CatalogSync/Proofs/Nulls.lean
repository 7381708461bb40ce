import CatalogSync.Proofs.Records

/- Where nulls stand in a tree. A null is found by a path of steps into members and elements
   (`Json.NullAt`). A type whose trees hold no null is null-free, and so are lists, maps, sets and
   records made of such types; in a record that is not, the nulls are those of its fields
   (`nullAt_record`). -/
namespace CatalogSync

namespace Json

/-- A step into a tree: to a member of an object, or to an element of an array. -/
inductive Step where
  | member (name : String)
  | element (i : Nat)
deriving DecidableEq, Repr

/-- A null stands at the end of a path into a tree. -/
inductive NullAt : Json → List Step → Prop
  | here : NullAt .null []
  | element {items : List Json} {i : Nat} {j : Json} {p : List Step} :
    items[i]? = some j → NullAt j p → NullAt (.arr items) (.element i :: p)
  | member {members : Members} {name : String} {j : Json} {p : List Step} :
    (name, j) ∈ members → NullAt j p → NullAt (.obj members) (.member name :: p)

/-- No null stands in a tree. -/
def NullFree (j : Json) : Prop := ∀ p, ¬ NullAt j p

theorem nullAt_null {p : List Step} : NullAt .null p ↔ p = [] := by
  constructor
  · intro h
    cases h
    rfl
  · rintro rfl
    exact .here

theorem nullAt_arr {items : List Json} {p : List Step} :
    NullAt (.arr items) p ↔ ∃ i j q, items[i]? = some j ∧ p = .element i :: q ∧ NullAt j q := by
  constructor
  · intro h
    cases h with
    | element hi hj => exact ⟨_, _, _, hi, rfl, hj⟩
  · rintro ⟨i, j, q, hi, rfl, hj⟩
    exact .element hi hj

theorem nullAt_obj {members : Members} {p : List Step} :
    NullAt (.obj members) p ↔
      ∃ name j q, (name, j) ∈ members ∧ p = .member name :: q ∧ NullAt j q := by
  constructor
  · intro h
    cases h with
    | member hm hj => exact ⟨_, _, _, hm, rfl, hj⟩
  · rintro ⟨name, j, q, hm, rfl, hj⟩
    exact .member hm hj

@[simp] theorem nullFree_str (s : String) : NullFree (.str s) := by
  intro p hp
  cases hp

theorem nullFree_obj {members : Members} (h : ∀ m ∈ members, NullFree m.2) :
    NullFree (.obj members) := by
  intro p hp
  obtain ⟨name, j, q, hm, -, hj⟩ := nullAt_obj.1 hp
  exact h (name, j) hm q hj

/-! ### Records -/

/-- A null of a field: its value is there, and the null stands in it. -/
def NullInField (name : String) (value : Option Json) (p : List Step) : Prop :=
  ∃ j q, value = some j ∧ p = .member name :: q ∧ NullAt j q

theorem nullInField_some {name : String} {j : Json} {p : List Step} :
    NullInField name (some j) p ↔ ∃ q, p = .member name :: q ∧ NullAt j q := by
  simp [NullInField]

theorem nullAt_record {fields : List (String × Option Json)} {p : List Step} :
    NullAt (record fields) p ↔ ∃ f ∈ fields, NullInField f.1 f.2 p := by
  unfold record
  rw [nullAt_obj]
  constructor
  · rintro ⟨name, j, q, hm, rfl, hj⟩
    obtain ⟨f, hf, he⟩ := List.mem_filterMap.1 hm
    obtain ⟨k, hk, he⟩ := Option.map_eq_some_iff.1 he
    cases he
    exact ⟨f, hf, j, q, hk, rfl, hj⟩
  · rintro ⟨f, hf, j, q, hv, rfl, hj⟩
    refine ⟨f.1, j, q, List.mem_filterMap.2 ⟨f, hf, ?_⟩, rfl, hj⟩
    rw [hv]
    rfl

theorem nullFree_record {fields : List (String × Option Json)}
    (h : ∀ f ∈ fields, ∀ p, ¬ NullInField f.1 f.2 p) : NullFree (record fields) := by
  intro p hp
  obtain ⟨f, hf, hn⟩ := nullAt_record.1 hp
  exact h f hf p hn

end Json

open Json

/-- No null stands in what is written for the values of a type. -/
class NullFreeForm (α : Type) [JsonForm α] : Prop where
  nullFree : ∀ a : α, (write a).NullFree

section

variable {α : Type} [JsonForm α]

instance (priority := low) [NullFreeForm α] : SolidJsonForm α :=
  ⟨fun a h => NullFreeForm.nullFree a [] (h ▸ .here)⟩

instance : NullFreeForm String := ⟨fun _ _ h => by cases h⟩

instance : NullFreeForm Bool := ⟨fun _ _ h => by cases h⟩

instance : NullFreeForm Nat := ⟨fun _ _ h => by cases h⟩

instance : NullFreeForm UInt32 := ⟨fun _ _ h => by cases h⟩

instance : NullFreeForm UInt64 := ⟨fun _ _ h => by cases h⟩

instance : NullFreeForm Int64 := ⟨fun _ _ h => by cases h⟩

instance : SolidJsonForm (List α) := ⟨fun _ h => by cases h⟩

instance : SolidJsonForm (SortedMap String α) := ⟨fun _ h => by cases h⟩

theorem nullAt_list {xs : List α} {p : List Step} :
    NullAt (write xs) p ↔ ∃ i a q, xs[i]? = some a ∧ p = .element i :: q ∧ NullAt (write a) q := by
  show NullAt (.arr (xs.map write)) p ↔ _
  rw [nullAt_arr]
  constructor
  · rintro ⟨i, j, q, hi, rfl, hj⟩
    rw [List.getElem?_map] at hi
    obtain ⟨a, ha, rfl⟩ := Option.map_eq_some_iff.1 hi
    exact ⟨i, a, q, ha, rfl, hj⟩
  · rintro ⟨i, a, q, ha, rfl, hj⟩
    refine ⟨i, write a, q, ?_, rfl, hj⟩
    rw [List.getElem?_map, ha]
    rfl

theorem nullAt_map {m : SortedMap String α} {p : List Step} :
    NullAt (write m) p ↔
      ∃ k a q, m.get? k = some a ∧ p = .member k :: q ∧ NullAt (write a) q := by
  show NullAt (.obj (m.entries.map fun e => (e.1, write e.2))) p ↔ _
  rw [nullAt_obj]
  constructor
  · rintro ⟨k, j, q, hm, rfl, hj⟩
    obtain ⟨e, he, heq⟩ := List.mem_map.1 hm
    cases heq
    exact ⟨e.1, e.2, q, SortedMap.get?_eq_some.2 he, rfl, hj⟩
  · rintro ⟨k, a, q, hk, rfl, hj⟩
    exact ⟨k, write a, q, List.mem_map.2 ⟨(k, a), SortedMap.get?_eq_some.1 hk, rfl⟩, rfl, hj⟩

variable [NullFreeForm α]

instance : NullFreeForm (List α) := ⟨fun xs p h => by
  obtain ⟨i, a, q, -, -, hj⟩ := nullAt_list.1 h
  exact NullFreeForm.nullFree a q hj⟩

instance : NullFreeForm (SortedMap String α) := ⟨fun m p h => by
  obtain ⟨k, a, q, -, -, hj⟩ := nullAt_map.1 h
  exact NullFreeForm.nullFree a q hj⟩

instance {κ : Type} [LT κ] [DecidableLT κ] [LinearKey κ] [JsonForm κ] [NullFreeForm κ] :
    NullFreeForm (SortedSet κ) :=
  ⟨fun s p h => NullFreeForm.nullFree s.elems p h⟩

@[simp] theorem not_nullInField_write (name : String) (a : α) (p : List Step) :
    ¬ NullInField name (some (write a)) p := by
  rintro ⟨j, q, hv, -, hj⟩
  cases hv
  exact NullFreeForm.nullFree a q hj

@[simp] theorem not_nullInField_map (name : String) (o : Option α) (p : List Step) :
    ¬ NullInField name (o.map write) p := by
  cases o with
  | none =>
    rintro ⟨j, q, hv, -⟩
    cases hv
  | some a => exact not_nullInField_write name a p

end

end CatalogSync
