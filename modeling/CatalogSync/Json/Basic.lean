import CatalogSync.Number.Double

/- JSON values. Attribute values are free JSON, so their equality decides whether an attribute has
   changed: integers and doubles are never equal, doubles are equal by value, arrays agree item by
   item and objects member by member. A tree that is read from text has the members of every
   object in strictly ascending order of names, which makes the order they were written in
   irrelevant. -/
namespace CatalogSync

/-- A JSON value. -/
inductive Json where
  | null
  | bool (b : Bool)
  | int (n : Int)
  | float (x : Double)
  | str (s : String)
  | arr (items : List Json)
  | obj (members : List (String × Json))
deriving Repr, Inhabited

namespace Json

mutual

/-- Equality of values. -/
def same : Json → Json → Bool
  | .null, .null => true
  | .bool a, .bool b => a == b
  | .int a, .int b => a == b
  | .float x, .float y => x.same y
  | .str a, .str b => a == b
  | .arr a, .arr b => sameItems a b
  | .obj a, .obj b => sameMembers a b
  | _, _ => false

def sameItems : List Json → List Json → Bool
  | [], [] => true
  | a :: as, b :: bs => same a b && sameItems as bs
  | _, _ => false

def sameMembers : List (String × Json) → List (String × Json) → Bool
  | [], [] => true
  | (m, a) :: as, (n, b) :: bs => m == n && same a b && sameMembers as bs
  | _, _ => false

end

instance : BEq Json := ⟨same⟩

theorem beq_def (a b : Json) : (a == b) = same a b := rfl

mutual

theorem same_refl : ∀ a : Json, same a a = true
  | .null => rfl
  | .bool _ => by simp [same]
  | .int _ => by simp [same]
  | .float x => by simp [same, Double.same_refl x]
  | .str _ => by simp [same]
  | .arr xs => by simp [same, sameItems_refl xs]
  | .obj ms => by simp [same, sameMembers_refl ms]

theorem sameItems_refl : ∀ xs : List Json, sameItems xs xs = true
  | [] => rfl
  | x :: xs => by simp [sameItems, same_refl x, sameItems_refl xs]

theorem sameMembers_refl : ∀ ms : List (String × Json), sameMembers ms ms = true
  | [] => rfl
  | (_, a) :: ms => by simp [sameMembers, same_refl a, sameMembers_refl ms]

end

mutual

theorem same_symm : ∀ {a b : Json}, same a b = true → same b a = true
  | .null, b, h => by cases b <;> simp_all [same]
  | .bool _, b, h => by cases b <;> simp_all [same]
  | .int _, b, h => by cases b <;> simp_all [same]
  | .float _, b, h => by
    cases b <;> simp_all [same]
    exact Double.same_symm h
  | .str _, b, h => by cases b <;> simp_all [same]
  | .arr _, b, h => by
    cases b <;> simp_all [same]
    exact sameItems_symm h
  | .obj _, b, h => by
    cases b <;> simp_all [same]
    exact sameMembers_symm h

theorem sameItems_symm : ∀ {xs ys : List Json}, sameItems xs ys = true → sameItems ys xs = true
  | [], ys, h => by cases ys <;> simp_all [sameItems]
  | x :: xs, ys, h => by
    cases ys with
    | nil => simp [sameItems] at h
    | cons y ys =>
      simp only [sameItems, Bool.and_eq_true] at h ⊢
      exact ⟨same_symm h.1, sameItems_symm h.2⟩

theorem sameMembers_symm : ∀ {ms ns : List (String × Json)}, sameMembers ms ns = true →
    sameMembers ns ms = true
  | [], ns, h => by cases ns <;> simp_all [sameMembers]
  | (m, a) :: ms, ns, h => by
    cases ns with
    | nil => simp [sameMembers] at h
    | cons n ns =>
      simp only [sameMembers, Bool.and_eq_true, beq_iff_eq] at h ⊢
      exact ⟨⟨h.1.1.symm, same_symm h.1.2⟩, sameMembers_symm h.2⟩

end

mutual

theorem same_trans : ∀ {a b c : Json}, same a b = true → same b c = true → same a c = true
  | .null, b, c, h, h' => by cases b <;> cases c <;> simp_all [same]
  | .bool _, b, c, h, h' => by cases b <;> cases c <;> simp_all [same]
  | .int _, b, c, h, h' => by cases b <;> cases c <;> simp_all [same]
  | .float _, b, c, h, h' => by
    cases b <;> cases c <;> simp_all [same]
    exact Double.same_trans h h'
  | .str _, b, c, h, h' => by cases b <;> cases c <;> simp_all [same]
  | .arr _, b, c, h, h' => by
    cases b <;> cases c <;> simp_all [same]
    exact sameItems_trans h h'
  | .obj _, b, c, h, h' => by
    cases b <;> cases c <;> simp_all [same]
    exact sameMembers_trans h h'

theorem sameItems_trans : ∀ {xs ys zs : List Json}, sameItems xs ys = true →
    sameItems ys zs = true → sameItems xs zs = true
  | [], ys, zs, h, h' => by cases ys <;> cases zs <;> simp_all [sameItems]
  | x :: xs, ys, zs, h, h' => by
    cases ys with
    | nil => simp [sameItems] at h
    | cons y ys =>
      cases zs with
      | nil => simp [sameItems] at h'
      | cons z zs =>
        simp only [sameItems, Bool.and_eq_true] at h h' ⊢
        exact ⟨same_trans h.1 h'.1, sameItems_trans h.2 h'.2⟩

theorem sameMembers_trans : ∀ {ls ms ns : List (String × Json)}, sameMembers ls ms = true →
    sameMembers ms ns = true → sameMembers ls ns = true
  | [], ms, ns, h, h' => by cases ms <;> cases ns <;> simp_all [sameMembers]
  | (l, a) :: ls, ms, ns, h, h' => by
    cases ms with
    | nil => simp [sameMembers] at h
    | cons m ms =>
      cases ns with
      | nil => simp [sameMembers] at h'
      | cons n ns =>
        simp only [sameMembers, Bool.and_eq_true, beq_iff_eq] at h h' ⊢
        exact ⟨⟨h.1.1.trans h'.1.1, same_trans h.1.2 h'.1.2⟩, sameMembers_trans h.2 h'.2⟩

end

/-- Equality of values is an equivalence; it is coarser than equality of trees only in the sign of
    zeros. -/
instance : EquivBEq Json where
  rfl := same_refl _
  symm := same_symm
  trans := same_trans

end Json

end CatalogSync
