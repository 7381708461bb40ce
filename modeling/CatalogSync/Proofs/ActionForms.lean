import CatalogSync.Proofs.RoundTrip
import CatalogSync.Catalog.ProductAction
import CatalogSync.Catalog.ChannelAction

/- The JSON forms of the actions. Every field of an action is written, an absent one as null, so an
   attribute value of null is read back as an absent one; apart from that an action is read back as
   it was (`normal`). Inside of an added variant no such thing happens, since the attributes are
   there by name. Main statement: `actions_wired`. -/
namespace CatalogSync

open Json Json.Members

/-- What is read for an optional field that holds any JSON value. -/
def notNull : Option Json → Option Json
  | some .null => none
  | o => o

theorem optional_of_written {ms : Members} {name : String} {o : Option Json}
    (h : ms.lookup name = some (write o)) :
    ms.optional name = some (notNull o) := by
  rw [Members.optional, h]
  cases o with
  | none => rfl
  | some j => cases j <;> rfl

/-! ### Product actions -/

namespace ProductAction

theorem normal_setAttribute (id : UInt32) (name : String) (value : Option Json) :
    (setAttribute id name value).normal = setAttribute id name (notNull value) := by
  cases value with
  | none => rfl
  | some j => cases j <;> rfl

theorem normal_setAttributeInAllVariants (name : String) (value : Option Json) :
    (setAttributeInAllVariants name value).normal =
      setAttributeInAllVariants name (notNull value) := by
  cases value with
  | none => rfl
  | some j => cases j <;> rfl

/-- The fields of an action are read back as those of its normal form. -/
theorem ofFields?_fields (a : ProductAction) (j : Json) :
    ofFields? (("action", j) :: a.fields) a.verb = some a.normal := by
  cases a with
  | setAttribute id name value =>
    rw [normal_setAttribute, fields, verb, ofFields?, required_of_lookup rfl,
      required_of_lookup rfl, optional_of_written rfl]
    rfl
  | setAttributeInAllVariants name value =>
    rw [normal_setAttributeInAllVariants, fields, verb, ofFields?, required_of_lookup rfl,
      optional_of_written rfl]
    rfl
  | _ =>
    simp [ofFields?, fields, verb, normal, required, Members.optional, List.lookup_cons,
      LawfulJsonForm.read?_write, readOption?_write]

theorem read?_write (a : ProductAction) : read? (write a) = some a.normal := by
  have htag : required (("action", .str a.name) :: a.fields) "action" = some a.name :=
    required_of_lookup rfl
  show (required (("action", .str a.name) :: a.fields) "action" >>= fun label =>
    ProductVerb.ofLabel? label >>= ofFields? (("action", .str a.name) :: a.fields)) = _
  rw [htag]
  show (ProductVerb.ofLabel? a.verb.label).bind _ = _
  rw [ProductVerb.ofLabel?_label]
  exact ofFields?_fields a (.str a.name)

/-- An action is written like its normal form. -/
theorem write_normal (a : ProductAction) : write a.normal = write a := by
  cases a with
  | setAttribute id name value =>
    rw [normal_setAttribute]
    cases value with
    | none => rfl
    | some j => cases j <;> rfl
  | setAttributeInAllVariants name value =>
    rw [normal_setAttributeInAllVariants]
    cases value with
    | none => rfl
    | some j => cases j <;> rfl
  | _ => rfl

theorem nodup_fieldNames (v : ProductVerb) : ("action" :: v.fieldNames).Nodup := by
  cases v <;> decide

end ProductAction

/-! ### Channel actions -/

namespace ChannelAction

theorem ofFields?_fields (a : ChannelAction) (j : Json) :
    ofFields? (("action", j) :: a.fields) a.verb = some a := by
  cases a <;>
    simp [ofFields?, fields, verb, required, Members.optional, List.lookup_cons,
      LawfulJsonForm.read?_write, readOption?_write]

theorem read?_write (a : ChannelAction) : read? (write a) = some a := by
  have htag : required (("action", .str a.name) :: a.fields) "action" = some a.name :=
    required_of_lookup rfl
  show (required (("action", .str a.name) :: a.fields) "action" >>= fun label =>
    ChannelVerb.ofLabel? label >>= ofFields? (("action", .str a.name) :: a.fields)) = _
  rw [htag]
  show (ChannelVerb.ofLabel? a.verb.label).bind _ = _
  rw [ChannelVerb.ofLabel?_label]
  exact ofFields?_fields a (.str a.name)

theorem nodup_fieldNames (v : ChannelVerb) : ("action" :: v.fieldNames).Nodup := by
  cases v <;> decide

end ChannelAction

/-! ### All actions -/

/-- How the actions of a type travel. Each is read back as its normal form and written again as
    before, so two are written alike if and only if their normal forms are equal. It is written as
    an object whose members have distinct names, with its own name as the member `action`. -/
structure Wired (α : Type) [JsonForm α] (name : α → String) (normal : α → α) : Prop where
  read_write : ∀ a : α, read? (write a) = some (normal a)
  write_read : ∀ a : α, (read? (α := α) (write a)).map write = some (write a)
  write_eq_iff : ∀ a b : α, write a = write b ↔ normal a = normal b
  tag : ∀ a : α, ∃ ms, write a = .obj ms ∧ (ms.map (·.1)).Nodup ∧
    ms.lookup "action" = some (.str (name a))

theorem wired_of_read {α : Type} [JsonForm α] {name : α → String} {normal : α → α}
    (hread : ∀ a : α, read? (write a) = some (normal a))
    (hwrite : ∀ a : α, write (normal a) = write a)
    (tag : ∀ a : α, ∃ ms, write a = .obj ms ∧ (ms.map (·.1)).Nodup ∧
      ms.lookup "action" = some (.str (name a))) : Wired α name normal where
  read_write := hread
  write_read a := by rw [hread, Option.map_some, hwrite]
  write_eq_iff a b := by
    constructor
    · intro h
      have hnormal : some (normal a) = some (normal b) := by rw [← hread, h, hread]
      exact Option.some.inj hnormal
    · intro h
      rw [← hwrite a, h, hwrite]
  tag := tag

theorem ProductAction.wired : Wired ProductAction ProductAction.name ProductAction.normal := by
  refine wired_of_read read?_write write_normal fun a => ⟨_, rfl, ?_, rfl⟩
  rw [List.map_cons, map_fst_fields]
  exact nodup_fieldNames a.verb

theorem ChannelAction.wired : Wired ChannelAction ChannelAction.name id := by
  refine wired_of_read read?_write (fun _ => rfl) fun a => ⟨_, rfl, ?_, rfl⟩
  rw [List.map_cons, map_fst_fields]
  exact nodup_fieldNames a.verb

/-- Actions of both types travel as JSON. Those on products lose the difference between an attribute
    set to null and an unset one, and nothing else; those on channels lose nothing. The attributes
    of an added variant keep their nulls. -/
theorem actions_wired :
    Wired ProductAction ProductAction.name ProductAction.normal ∧
    Wired ChannelAction ChannelAction.name id ∧
    (∀ v w : VariantDraft,
      write (ProductAction.addVariant v) = write (ProductAction.addVariant w) ↔ v = w) ∧
    ∀ (v : VariantDraft) (name : String),
      write (ProductAction.addVariant (v.withAttribute name .null)) ≠
        write (ProductAction.addVariant { v with attributes := v.attributes.erase name }) := by
  have hadd : ∀ v w : VariantDraft,
      write (ProductAction.addVariant v) = write (ProductAction.addVariant w) ↔ v = w := by
    intro v w
    rw [ProductAction.wired.write_eq_iff]
    constructor
    · intro h
      exact ProductAction.addVariant.inj h
    · rintro rfl
      rfl
  refine ⟨ProductAction.wired, ChannelAction.wired, hadd, ?_⟩
  intro v name h
  have hget : (v.attributes.insert name .null).get? name = (v.attributes.erase name).get? name :=
    congrArg (fun u : VariantDraft => u.attributes.get? name) ((hadd _ _).1 h)
  rw [SortedMap.get?_insert_self, SortedMap.get?_erase, if_pos rfl] at hget
  cases hget

end CatalogSync
