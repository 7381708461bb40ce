import CatalogSync.Sorted.Set

/- Finite maps kept as lists of entries with strictly ascending keys. Two maps that look up alike
   are equal (`SortedMap.ext`). Writing an entry replaces the one under its key, so of several
   entries with one key the last stays (`get?_ofList`). -/
namespace CatalogSync

/-- A finite map; its entries stand in strictly ascending order of keys. -/
structure SortedMap (κ : Type) [LT κ] (α : Type) where
  entries : List (κ × α)
  ascending : entries.Pairwise (fun x y => x.1 < y.1)

namespace SortedMap

variable {κ : Type} [LT κ] {α : Type}

instance [BEq κ] [BEq α] : BEq (SortedMap κ α) := ⟨fun a b => a.entries == b.entries⟩

instance [BEq κ] [BEq α] [LawfulBEq κ] [LawfulBEq α] : LawfulBEq (SortedMap κ α) where
  rfl := beq_self_eq_true (_ : List (κ × α))
  eq_of_beq h := by
    rename_i a b
    obtain ⟨x, _⟩ := a
    obtain ⟨y, _⟩ := b
    have : x = y := eq_of_beq (α := List (κ × α)) h
    subst this
    rfl

instance [DecidableEq κ] [DecidableEq α] : DecidableEq (SortedMap κ α) := fun a b =>
  match a, b with
  | ⟨x, _⟩, ⟨y, _⟩ =>
    if h : x = y then isTrue (by subst h; rfl) else isFalse (fun e => h (by cases e; rfl))

instance [Repr κ] [Repr α] : Repr (SortedMap κ α) := ⟨fun m n => reprPrec m.entries n⟩

def empty : SortedMap κ α := ⟨[], List.Pairwise.nil⟩

instance : EmptyCollection (SortedMap κ α) := ⟨empty⟩

instance : Inhabited (SortedMap κ α) := ⟨empty⟩

/-! ### Insertion, with the order it keeps -/

/-- Puts an entry into its place, over an entry with the same key. -/
def insertEntry [DecidableLT κ] (k : κ) (v : α) : List (κ × α) → List (κ × α)
  | [] => [(k, v)]
  | e :: es =>
    if k < e.1 then (k, v) :: e :: es
    else if e.1 < k then e :: insertEntry k v es
    else (k, v) :: es

theorem key_insertEntry [DecidableLT κ] {k : κ} {v : α} {x : κ × α} : ∀ {es : List (κ × α)},
    x ∈ insertEntry k v es → x.1 = k ∨ x ∈ es
  | [], h => by
    simp only [insertEntry, List.mem_singleton] at h
    exact Or.inl (h ▸ rfl)
  | e :: es, h => by
    simp only [insertEntry] at h
    split at h
    · rcases List.mem_cons.1 h with h | h
      · exact Or.inl (h ▸ rfl)
      · exact Or.inr h
    · split at h
      · rcases List.mem_cons.1 h with h | h
        · exact Or.inr (h ▸ List.mem_cons_self ..)
        · exact (key_insertEntry h).imp_right (List.mem_cons_of_mem _)
      · rcases List.mem_cons.1 h with h | h
        · exact Or.inl (h ▸ rfl)
        · exact Or.inr (List.mem_cons_of_mem _ h)

theorem eq_of_not_lt [LinearKey κ] {a b : κ} (h : ¬ a < b) (h' : ¬ b < a) : a = b := by
  rcases LinearKey.total a b with e | e | e
  · contradiction
  · exact e
  · contradiction

theorem insertEntry_ascending [DecidableLT κ] [LinearKey κ] (k : κ) (v : α) : ∀ {es : List (κ × α)},
    es.Pairwise (fun x y => x.1 < y.1) → (insertEntry k v es).Pairwise (fun x y => x.1 < y.1)
  | [], _ => by simp [insertEntry]
  | e :: es, h => by
    have he := List.pairwise_cons.1 h
    simp only [insertEntry]
    split
    · next hk =>
      exact List.pairwise_cons.2 ⟨fun a ha => (List.mem_cons.1 ha).elim (· ▸ hk)
        (fun m => LinearKey.trans hk (he.1 a m)), h⟩
    · split
      · next hk =>
        exact List.pairwise_cons.2 ⟨fun a ha => (key_insertEntry ha).elim
          (fun e' => e'.symm ▸ hk) (he.1 a), insertEntry_ascending k v he.2⟩
      · next h1 h2 =>
        have hk := eq_of_not_lt h1 h2
        exact List.pairwise_cons.2 ⟨fun a ha => hk ▸ he.1 a ha, he.2⟩

/-! ### Looking up -/

def keys (m : SortedMap κ α) : List κ := m.entries.map (·.1)

def size (m : SortedMap κ α) : Nat := m.entries.length

def isEmpty (m : SortedMap κ α) : Bool := m.entries.isEmpty

variable [DecidableEq κ]

/-- The value under `k` in a list of entries. -/
def lookupEntry (k : κ) : List (κ × α) → Option α
  | [] => none
  | e :: es => if e.1 = k then some e.2 else lookupEntry k es

def get? (m : SortedMap κ α) (k : κ) : Option α := lookupEntry k m.entries

/-- The map without the entry under `k`. -/
def erase (m : SortedMap κ α) (k : κ) : SortedMap κ α :=
  ⟨m.entries.filter fun e => e.1 ≠ k, m.ascending.filter _⟩

def contains (m : SortedMap κ α) (k : κ) : Bool := (m.get? k).isSome

@[simp] theorem get?_empty (k : κ) : (empty : SortedMap κ α).get? k = none := rfl

omit [LT κ] in
theorem lookupEntry_filter_ne (k k' : κ) : ∀ es : List (κ × α),
    lookupEntry k' (es.filter fun e => e.1 ≠ k) = if k = k' then none else lookupEntry k' es
  | [] => by simp [lookupEntry]
  | e :: es => by
    have ih := lookupEntry_filter_ne k k' es
    by_cases he : e.1 = k
    · rw [List.filter_cons_of_neg (by simp [he]), ih]
      by_cases hk : k = k'
      · simp [hk]
      · simp [hk, lookupEntry, he]
    · rw [List.filter_cons_of_pos (by simp [he]), lookupEntry, lookupEntry, ih]
      by_cases hk : k = k'
      · subst hk
        simp [he]
      · simp [hk]

theorem get?_erase (m : SortedMap κ α) (k k' : κ) :
    (m.erase k).get? k' = if k = k' then none else m.get? k' :=
  lookupEntry_filter_ne k k' m.entries

variable [LinearKey κ]

theorem lookupEntry_eq_some {k : κ} {v : α} : ∀ {es : List (κ × α)},
    es.Pairwise (fun x y => x.1 < y.1) → (lookupEntry k es = some v ↔ (k, v) ∈ es)
  | [], _ => by simp [lookupEntry]
  | e :: es, h => by
    have he := List.pairwise_cons.1 h
    have ih := @lookupEntry_eq_some k v es he.2
    simp only [lookupEntry, List.mem_cons]
    split
    · next hk =>
      constructor
      · intro hv
        exact Or.inl (by rw [← hk, ← Option.some.inj hv])
      · rintro (hv | hv)
        · rw [← hv]
        · exact absurd (he.1 _ hv) (by rw [hk]; exact LinearKey.irrefl k)
    · next hk =>
      rw [ih]
      constructor
      · exact Or.inr
      · rintro (hv | hv)
        · exact absurd (by rw [← hv]) hk
        · exact hv

theorem lookupEntry_of_lt {k : κ} : ∀ {es : List (κ × α)}, (∀ e ∈ es, k < e.1) →
    lookupEntry k es = none
  | [], _ => rfl
  | e :: es, h => by
    have he := LinearKey.ne_of_lt (h e (List.mem_cons_self ..))
    rw [lookupEntry, if_neg he.symm]
    exact lookupEntry_of_lt fun x hx => h x (List.mem_cons_of_mem e hx)

theorem get?_eq_some {m : SortedMap κ α} {k : κ} {v : α} : m.get? k = some v ↔ (k, v) ∈ m.entries :=
  lookupEntry_eq_some m.ascending

theorem mem_keys {m : SortedMap κ α} {k : κ} : k ∈ m.keys ↔ (m.get? k).isSome = true := by
  rw [Option.isSome_iff_exists, keys, List.mem_map]
  constructor
  · rintro ⟨e, he, rfl⟩
    exact ⟨e.2, get?_eq_some.2 he⟩
  · rintro ⟨v, hv⟩
    exact ⟨(k, v), get?_eq_some.1 hv, rfl⟩

omit [DecidableEq κ] in
theorem nodup_keys (m : SortedMap κ α) : m.keys.Nodup :=
  (List.pairwise_map.2 m.ascending).imp LinearKey.ne_of_lt

/-- Maps that look up alike are equal. -/
theorem ext {m n : SortedMap κ α} (h : ∀ k, m.get? k = n.get? k) : m = n := by
  have hm : m.entries = n.entries := by
    apply eq_of_ascending LinearKey.asymm m.ascending n.ascending
    intro a
    rw [← get?_eq_some (k := a.1) (v := a.2), ← get?_eq_some (k := a.1) (v := a.2), h]
  obtain ⟨xs, hx⟩ := m
  obtain ⟨ys, hy⟩ := n
  cases hm
  rfl

/-- Maps with the same keys have the same size. -/
theorem size_congr {β : Type} {m : SortedMap κ α} {n : SortedMap κ β}
    (h : ∀ k, (m.get? k).isSome = (n.get? k).isSome) : m.size = n.size := by
  have keys : m.keys = n.keys := by
    apply eq_of_ascending (r := fun a b : κ => a < b) LinearKey.asymm
    · exact List.pairwise_map.2 m.ascending
    · exact List.pairwise_map.2 n.ascending
    · intro k
      rw [mem_keys, mem_keys, h]
  calc m.size = m.keys.length := (List.length_map _).symm
    _ = n.keys.length := by rw [keys]
    _ = n.size := List.length_map _

variable [DecidableLT κ]

theorem lookupEntry_insertEntry (k k' : κ) (v : α) : ∀ es : List (κ × α),
    lookupEntry k' (insertEntry k v es) = if k = k' then some v else lookupEntry k' es
  | [] => rfl
  | e :: es => by
    have ih := lookupEntry_insertEntry k k' v es
    simp only [insertEntry]
    split
    · rfl
    · split
      · next h =>
        simp only [lookupEntry, ih]
        by_cases he : e.1 = k' <;> by_cases hk : k = k' <;> simp only [he, hk, if_true, if_false]
        exact absurd (he.trans hk.symm) (LinearKey.ne_of_lt h)
      · next h1 h2 =>
        have hk := eq_of_not_lt h1 h2
        subst hk
        simp only [lookupEntry]
        split <;> rfl

/-- The map with `v` under `k`. -/
def insert (m : SortedMap κ α) (k : κ) (v : α) : SortedMap κ α :=
  ⟨insertEntry k v m.entries, insertEntry_ascending k v m.ascending⟩

/-- The map of a list of entries; of several with one key the last counts. -/
def ofList (es : List (κ × α)) : SortedMap κ α := es.foldl (fun m e => m.insert e.1 e.2) empty

/-- The elements of a list under their keys; those without a key are left out, and of several with
    one key the last counts. -/
def indexBy (key : α → Option κ) (xs : List α) : SortedMap κ α :=
  ofList (xs.filterMap fun x => (key x).map (·, x))

theorem get?_insert (m : SortedMap κ α) (k k' : κ) (v : α) :
    (m.insert k v).get? k' = if k = k' then some v else m.get? k' :=
  lookupEntry_insertEntry k k' v m.entries

@[simp] theorem get?_insert_self (m : SortedMap κ α) (k : κ) (v : α) :
    (m.insert k v).get? k = some v := by
  simp [get?_insert]

theorem get?_insert_of_ne (m : SortedMap κ α) {k k' : κ} (v : α) (h : k ≠ k') :
    (m.insert k v).get? k' = m.get? k' := by
  simp [get?_insert, h]

theorem length_insertEntry (k : κ) (v : α) : ∀ {es : List (κ × α)},
    es.Pairwise (fun x y => x.1 < y.1) →
      (insertEntry k v es).length =
        if (lookupEntry k es).isSome then es.length else es.length + 1
  | [], _ => rfl
  | e :: es, h => by
    have he := List.pairwise_cons.1 h
    have ih := length_insertEntry k v he.2
    simp only [insertEntry]
    split
    · next hk =>
      -- all keys of the list lie behind the new one
      have absent : lookupEntry k (e :: es) = none :=
        lookupEntry_of_lt fun x hx => (List.mem_cons.1 hx).elim (· ▸ hk)
          (fun m => LinearKey.trans hk (he.1 x m))
      simp [absent]
    · split
      · next hk =>
        rw [List.length_cons, ih, lookupEntry, if_neg (LinearKey.ne_of_lt hk)]
        split <;> simp
      · next h1 h2 =>
        simp [lookupEntry, eq_of_not_lt h1 h2]

/-- Writing under a new key adds an entry; writing under one that is there adds none. -/
theorem size_insert (m : SortedMap κ α) (k : κ) (v : α) :
    (m.insert k v).size = if (m.get? k).isSome then m.size else m.size + 1 :=
  length_insertEntry k v m.ascending

theorem get?_foldl_insert (k : κ) : ∀ (es : List (κ × α)) (m : SortedMap κ α),
    (es.foldl (fun m e => m.insert e.1 e.2) m).get? k =
      ((es.reverse.find? fun e => e.1 = k).map (·.2)).or (m.get? k)
  | [], m => rfl
  | e :: es, m => by
    rw [List.foldl_cons, get?_foldl_insert k es, get?_insert, List.reverse_cons, List.find?_append]
    cases es.reverse.find? fun e => e.1 = k with
    | some x => simp
    | none => by_cases h : e.1 = k <;> simp [h]

/-- Looking up in the map of a list finds the last entry with the key. -/
theorem get?_ofList (es : List (κ × α)) (k : κ) :
    (ofList es).get? k = (es.reverse.find? fun e => e.1 = k).map (·.2) := by
  simp [ofList, get?_foldl_insert]

/-- Looking up in an index finds the last element with the key. -/
theorem get?_indexBy (key : α → Option κ) (xs : List α) (k : κ) :
    (indexBy key xs).get? k = xs.reverse.find? fun x => key x = some k := by
  rw [indexBy, get?_ofList, ← List.filterMap_reverse, List.find?_filterMap]
  have hp : (fun x => ((key x).map (·, x)).any fun e => decide (e.1 = k)) =
      fun x => decide (key x = some k) := by
    funext x
    cases key x <;> simp
  rw [hp]
  cases hf : xs.reverse.find? fun x => decide (key x = some k) with
  | none => rfl
  | some x =>
    have hx : key x = some k := by simpa using List.find?_some hf
    simp [hx]

/-- A map is rebuilt from its own entries. -/
@[simp] theorem ofList_entries (m : SortedMap κ α) : ofList m.entries = m := by
  apply ext
  intro k
  rw [get?_ofList]
  cases hf : m.entries.reverse.find? fun e => e.1 = k with
  | some e =>
    have hk : e.1 = k := by simpa using List.find?_some hf
    have hm : e ∈ m.entries := by simpa using List.mem_of_find?_eq_some hf
    exact (get?_eq_some.2 (by rw [← hk]; exact hm)).symm
  | none =>
    cases hg : m.get? k with
    | none => rfl
    | some v =>
      have hm := List.mem_reverse.2 (get?_eq_some.1 hg)
      simpa using List.find?_eq_none.1 hf _ hm

end SortedMap

end CatalogSync
