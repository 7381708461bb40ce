import CatalogSync.Catalog.Reference

/- Prices of a variant. A price holds in a scope: its currency, country, sales channel and
   customer group. The prices of one variant are told apart by their scopes. -/
namespace CatalogSync

/-- An amount in the smallest unit of its currency. -/
structure Money where
  centAmount : Int64
  currency : String
deriving DecidableEq, Repr, Inhabited

instance : JsonForm Money where
  write m := Json.record [
    ("cent_amount", some (write m.centAmount)),
    ("currency", some (write m.currency))]
  read? j := do
    let ms ← j.record? ["cent_amount", "currency"]
    let centAmount ← ms.required "cent_amount"
    let currency ← ms.required "currency"
    some ⟨centAmount, currency⟩

/-- A price; only those of stored entities have an id. -/
structure Price where
  id : Option String
  key : Option String
  value : Money
  country : Option String
  channel : Option Reference
  customerGroup : Option Reference
deriving DecidableEq, Repr, Inhabited

namespace Price

/-- A price that holds in every country, channel and customer group. -/
def of (value : Money) : Price := ⟨none, none, value, none, none, none⟩

def withId (p : Price) (id : String) : Price := { p with id := some id }

def withCountry (p : Price) (country : String) : Price := { p with country := some country }

def withChannel (p : Price) (channel : Reference) : Price := { p with channel := some channel }

def withCustomerGroup (p : Price) (group : Reference) : Price :=
  { p with customerGroup := some group }

/-- Both prices hold in the same scope. -/
def sameScope (p q : Price) : Bool :=
  p.value.currency == q.value.currency && p.country == q.country &&
    Reference.areEquivalent p.channel q.channel &&
    Reference.areEquivalent p.customerGroup q.customerGroup

instance : JsonForm Price where
  write p := Json.record [
    ("id", p.id.map write),
    ("key", p.key.map write),
    ("value", some (write p.value)),
    ("country", p.country.map write),
    ("channel", p.channel.map write),
    ("customer_group", p.customerGroup.map write)]
  read? j := do
    let ms ← j.record? ["id", "key", "value", "country", "channel", "customer_group"]
    let id ← ms.optional "id"
    let key ← ms.optional "key"
    let value ← ms.required "value"
    let country ← ms.optional "country"
    let channel ← ms.optional "channel"
    let customerGroup ← ms.optional "customer_group"
    some ⟨id, key, value, country, channel, customerGroup⟩

end Price

end CatalogSync
