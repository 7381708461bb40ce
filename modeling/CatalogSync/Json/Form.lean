import CatalogSync.Json.Basic
import CatalogSync.Sorted.Map

/- JSON forms. A type has a JSON form when its values can be written as trees and trees can be
   read back; the form is lawful when reading what was written gives the value again. A record is
   an object whose members are required, optional (left out when absent; a missing member and a
   null read alike) or defaulted (always written; a missing member reads as the default, a null
   does not). Members that a record does not name are ignored. A record is also read from an array
   that lists its members in their order and may stop early. A case without fields is written as
   its label. -/
namespace CatalogSync

/-- How the values of a type are written as trees, and which trees are read as a value. -/
class JsonForm (α : Type) where
  write : α → Json
  read? : Json → Option α

/-- Reading what was written gives the value again. -/
class LawfulJsonForm (α : Type) [JsonForm α] : Prop where
  read?_write : ∀ a : α, JsonForm.read? (JsonForm.write a) = some a

export JsonForm (write read?)

/-! ### Plain values -/

instance : JsonForm Json := ⟨id, some⟩

instance : LawfulJsonForm Json := ⟨fun _ => rfl⟩

instance : JsonForm String where
  write := .str
  read? | .str s => some s | _ => none

instance : LawfulJsonForm String := ⟨fun _ => rfl⟩

instance : JsonForm Bool where
  write := .bool
  read? | .bool b => some b | _ => none

instance : LawfulJsonForm Bool := ⟨fun _ => rfl⟩

/-- The natural number that a tree is, if it is one. -/
def Json.natural? : Json → Option Nat
  | .int (.ofNat n) => some n
  | _ => none

instance : JsonForm Nat := ⟨fun n => .int n, Json.natural?⟩

instance : LawfulJsonForm Nat := ⟨fun _ => rfl⟩

instance : JsonForm UInt32 where
  write n := .int n.toNat
  read? j := j.natural?.bind fun n => if n < 4294967296 then some n.toUInt32 else none

instance : LawfulJsonForm UInt32 := ⟨fun n => by
  have h := n.toNat_lt
  simp [write, read?, Json.natural?]
  omega⟩

instance : JsonForm UInt64 where
  write n := .int n.toNat
  read? j := j.natural?.bind fun n => if n < 18446744073709551616 then some n.toUInt64 else none

instance : LawfulJsonForm UInt64 := ⟨fun n => by
  have h := n.toNat_lt
  simp [write, read?, Json.natural?]
  omega⟩

/-- The whole numbers from `-limit` up to, but not including, `limit`. -/
def fitsSigned (limit : Nat) : Int → Bool
  | .ofNat n => n < limit
  | .negSucc n => n < limit

theorem fitsSigned_iff {limit : Nat} {n : Int} :
    fitsSigned limit n = true ↔ -(limit : Int) ≤ n ∧ n < limit := by
  cases n with
  | ofNat n => simp [fitsSigned]
  | negSucc n => simp [fitsSigned]; omega

instance : JsonForm Int64 where
  write n := .int n.toInt
  read?
    | .int n => if fitsSigned 9223372036854775808 n then some (Int64.ofInt n) else none
    | _ => none

instance : LawfulJsonForm Int64 := ⟨fun n => by
  have h1 := n.le_toInt
  have h2 := n.toInt_lt
  have h : fitsSigned 9223372036854775808 n.toInt = true := fitsSigned_iff.2 ⟨by omega, by omega⟩
  simp [write, read?, h]⟩

instance : JsonForm Int32 where
  write n := .int n.toInt
  read?
    | .int n => if fitsSigned 2147483648 n then some (Int32.ofInt n) else none
    | _ => none

instance : LawfulJsonForm Int32 := ⟨fun n => by
  have h1 := n.le_toInt
  have h2 := n.toInt_lt
  have h : fitsSigned 2147483648 n.toInt = true := fitsSigned_iff.2 ⟨by omega, by omega⟩
  simp [write, read?, h]⟩

/-- The label of a case without fields: a string, or the name of the only member of an object
    when the value there is null. -/
def Json.label? : Json → Option String
  | .str s => some s
  | .obj [(s, .null)] => some s
  | _ => none

/-! ### Lists, optional values, maps and sets -/

variable {α : Type} [JsonForm α]

instance : JsonForm (List α) where
  write xs := .arr (xs.map write)
  read? | .arr xs => xs.mapM read? | _ => none

theorem mapM_read?_write [LawfulJsonForm α] : ∀ xs : List α, (xs.map write).mapM read? = some xs
  | [] => rfl
  | x :: xs => by simp [List.mapM_cons, LawfulJsonForm.read?_write, mapM_read?_write xs]

instance [LawfulJsonForm α] : LawfulJsonForm (List α) := ⟨mapM_read?_write⟩

/-- An absent value is null. -/
def writeOption : Option α → Json
  | none => .null
  | some a => write a

/-- Null reads as an absent value. -/
def readOption? : Json → Option (Option α)
  | .null => some none
  | j => (read? j).map some

instance : JsonForm (Option α) := ⟨writeOption, readOption?⟩

def readMember? (m : String × Json) : Option (String × α) := (read? m.2).map (m.1, ·)

instance : JsonForm (SortedMap String α) where
  write m := .obj (m.entries.map fun e => (e.1, write e.2))
  read? | .obj ms => (ms.mapM readMember?).map SortedMap.ofList | _ => none

theorem mapM_readMember?_write [LawfulJsonForm α] : ∀ es : List (String × α),
    (es.map fun e => (e.1, write e.2)).mapM (readMember? (α := α)) = some es
  | [] => rfl
  | e :: es => by
    simp [List.mapM_cons, readMember?, LawfulJsonForm.read?_write, mapM_readMember?_write es]

instance [LawfulJsonForm α] : LawfulJsonForm (SortedMap String α) := ⟨fun m => by
  show (List.mapM readMember? (m.entries.map fun e => (e.1, write e.2))).map SortedMap.ofList
    = some m
  rw [mapM_readMember?_write, Option.map_some, SortedMap.ofList_entries]⟩

instance {κ : Type} [LT κ] [DecidableLT κ] [LinearKey κ] [JsonForm κ] : JsonForm (SortedSet κ) where
  write s := write s.elems
  read? j := (read? (α := List κ) j).map SortedSet.ofList

instance {κ : Type} [LT κ] [DecidableLT κ] [LinearKey κ] [JsonForm κ] [LawfulJsonForm κ] :
    LawfulJsonForm (SortedSet κ) := ⟨fun s => by
  show (read? (α := List κ) (write s.elems)).map SortedSet.ofList = some s
  rw [LawfulJsonForm.read?_write, Option.map_some, SortedSet.ofList_elems]⟩

/-! ### Records -/

namespace Json

/-- The members of an object. -/
abbrev Members := List (String × Json)

/-- The object of the members that are present. -/
def record (fields : List (String × Option Json)) : Json :=
  .obj (fields.filterMap fun f => f.2.map (f.1, ·))

/-- The members of an object; other values have none. -/
def members? : Json → Option Members
  | .obj ms => some ms
  | _ => none

/-- The members of a record with the given names: those of an object, or the elements of an array,
    which go to the names in turn. An array with more elements than there are names is no record.
    -/
def record? (names : List String) : Json → Option Members
  | .obj ms => some ms
  | .arr xs => if xs.length ≤ names.length then some (names.zip xs) else none
  | _ => none

/-- The members with the given names when there is one element for each of them. -/
def positional? (names : List String) (xs : List Json) : Option Members :=
  if xs.length = names.length then some (names.zip xs) else none

namespace Members

/-- The value of a member that has to be there. -/
def required (ms : Members) (name : String) : Option α := (ms.lookup name).bind read?

/-- The value of a member that may be missing or null. -/
def optional (ms : Members) (name : String) : Option (Option α) :=
  match ms.lookup name with
  | none => some none
  | some j => readOption? j

/-- The value of a member that may be missing, but not null. -/
def defaulted (ms : Members) (name : String) (default : α) : Option α :=
  match ms.lookup name with
  | none => some default
  | some j => read? j

end Members

omit [JsonForm α] in
theorem lookup_filterMap (name : String) : ∀ fields : List (String × Option Json),
    (fields.map (·.1)).Nodup →
      (fields.filterMap fun f => f.2.map (f.1, ·)).lookup name = (fields.lookup name).join
  | [], _ => rfl
  | (n, v) :: fields, h => by
    have hn := List.nodup_cons.1 h
    have ih := lookup_filterMap name fields hn.2
    by_cases he : name = n
    · subst he
      cases v with
      | some j => simp
      | none =>
        simp only [List.filterMap_cons, Option.map_none, List.lookup_cons, beq_self_eq_true]
        rw [ih, List.lookup_eq_none_iff.2]
        · rfl
        · intro p hp
          have : name ≠ p.1 := fun hc => hn.1 (List.mem_map.2 ⟨p, hp, hc.symm⟩)
          simpa using this
    · have hb : (name == n) = false := by simpa using he
      cases v <;> simp [List.lookup_cons, hb, ih]

end Json

end CatalogSync
