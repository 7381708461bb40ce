import CatalogSync.Json.Form
import CatalogSync.Text.Hex

/- Identifiers of stored entities: thirty-two hexadecimal digits. They are written in lower case
   in five groups joined by hyphens. They are read in that form, also within braces or behind
   `urn:uuid:`, and without any hyphens; case does not matter. -/
namespace CatalogSync

/-- An identifier, by its digits. -/
structure ResourceId where
  digits : List (Fin 16)
  size : digits.length = 32
deriving DecidableEq, Repr

namespace ResourceId

/-- The digits of a natural number to base sixteen, the last `k` of them. -/
def lastDigits : Nat → Nat → List (Fin 16)
  | 0, _ => []
  | k + 1, n => lastDigits k (n / 16) ++ [⟨n % 16, Nat.mod_lt n (by decide)⟩]

theorem length_lastDigits : ∀ k n, (lastDigits k n).length = k
  | 0, _ => rfl
  | k + 1, n => by simp [lastDigits, length_lastDigits k]

/-- The identifier that spells a number below `2 ^ 128`. -/
def ofNat (n : Nat) : ResourceId := ⟨lastDigits 32 n, length_lastDigits 32 n⟩

instance : Inhabited ResourceId := ⟨ofNat 0⟩

/-- The sizes of all groups but the last. -/
def groupSizes : List Nat := [8, 4, 4, 4]

/-- Puts a hyphen behind each group. -/
def hyphenate : List Nat → List Char → List Char
  | [], cs => cs
  | n :: ns, cs => cs.take n ++ '-' :: hyphenate ns (cs.drop n)

/-- Takes out the hyphen behind each group; every one has to be in its place. -/
def dropHyphens? : List Nat → List Char → Option (List Char)
  | [], cs => some cs
  | n :: ns, cs =>
    match cs.drop n with
    | '-' :: r => (dropHyphens? ns r).map (cs.take n ++ ·)
    | _ => none

/-- The written form: lower case, in hyphenated groups. -/
def display (x : ResourceId) : String :=
  String.ofList (hyphenate groupSizes (x.digits.map hexDigit))

/-- The identifier spelt by thirty-two digits. -/
def ofHex? (cs : List Char) : Option ResourceId :=
  (cs.mapM hexDigit?).bind fun ds => if h : ds.length = 32 then some ⟨ds, h⟩ else none

/-- The text within braces or behind `urn:uuid:`; other texts stand for themselves. -/
def bare (cs : List Char) : List Char :=
  if cs.head? = some '\x7b' ∧ cs.getLast? = some '\x7d' then (cs.drop 1).dropLast
  else if (cs.take 9).map Char.toLower = "urn:uuid:".toList then cs.drop 9
  else cs

/-- Reads an identifier in any of its forms. -/
def parse? (s : String) : Option ResourceId :=
  let cs := s.toList
  if cs.length = 32 then ofHex? cs else (dropHyphens? groupSizes (bare cs)).bind ofHex?

instance : JsonForm ResourceId where
  write x := .str x.display
  read? | .str s => parse? s | _ => none

end ResourceId

end CatalogSync
