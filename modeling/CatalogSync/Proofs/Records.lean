import CatalogSync.Json.Form

/- Reading records. A record is written without the members that are absent, so what a reader finds
   under a name is what the record has there (`lookup_present`). A required or a defaulted member
   is found as it was written. An optional one is, too, as long as its type never writes a null,
   which would read as absent: such types are solid. Main statement: `read?_record`. -/
namespace CatalogSync

/-- No value of the type is written as null, so a value is not mistaken for an absent one. -/
class SolidJsonForm (α : Type) [JsonForm α] : Prop where
  write_ne_null : ∀ a : α, JsonForm.write a ≠ .null

variable {α β : Type} [JsonForm α]

theorem readOption?_of_ne_null {j : Json} (h : j ≠ .null) :
    readOption? (α := α) j = (read? j).map some := by
  cases j with
  | null => exact absurd rfl h
  | bool _ | int _ | float _ | str _ | arr _ | obj _ => rfl

theorem readOption?_write [LawfulJsonForm α] [SolidJsonForm α] (o : Option α) :
    readOption? (write o) = some o := by
  cases o with
  | none => rfl
  | some a =>
    show readOption? (write a) = some (some a)
    rw [readOption?_of_ne_null (SolidJsonForm.write_ne_null a), LawfulJsonForm.read?_write]
    rfl

instance [LawfulJsonForm α] [SolidJsonForm α] : LawfulJsonForm (Option α) :=
  ⟨readOption?_write⟩

namespace Json

/-- The members of a record that are there. -/
def present (fields : List (String × Option Json)) : Members :=
  fields.filterMap fun f => f.2.map (f.1, ·)

theorem lookup_present {fields : List (String × Option Json)} (h : (fields.map (·.1)).Nodup)
    (name : String) : (present fields).lookup name = (fields.lookup name).join :=
  lookup_filterMap name fields h

/-- A record is read off its members, of which only the look-ups by name matter. -/
theorem read?_record {names : List String} {fields : List (String × Option Json)}
    {read : Members → Option β} {b : β} (h : (fields.map (·.1)).Nodup)
    (hr : ∀ ms : Members, (∀ name, ms.lookup name = (fields.lookup name).join) →
      read ms = some b) :
    ((record fields).record? names).bind read = some b :=
  hr (present fields) (lookup_present h)

namespace Members

variable [LawfulJsonForm α] {ms : Members} {name : String}

theorem required_of_lookup {a : α} (h : ms.lookup name = some (write a)) :
    ms.required name = some a := by
  rw [required, h]
  exact LawfulJsonForm.read?_write a

theorem defaulted_of_lookup {a : α} (d : α) (h : ms.lookup name = some (write a)) :
    ms.defaulted name d = some a := by
  rw [defaulted, h]
  exact LawfulJsonForm.read?_write a

theorem optional_of_lookup [SolidJsonForm α] {o : Option α}
    (h : ms.lookup name = o.map write) : ms.optional name = some o := by
  rw [optional, h]
  cases o with
  | none => rfl
  | some a => exact readOption?_write (some a)

end Members

end Json

end CatalogSync
