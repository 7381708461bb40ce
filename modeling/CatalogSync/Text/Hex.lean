/- Hexadecimal digits: written in lower case, read in either case. -/
namespace CatalogSync

/-- The value of a hexadecimal digit. -/
def hexDigit? (c : Char) : Option (Fin 16) :=
  if c.isDigit then some (Fin.ofNat 16 (c.toNat - '0'.toNat))
  else if 'a' ≤ c ∧ c ≤ 'f' then some (Fin.ofNat 16 (c.toNat - 'a'.toNat + 10))
  else if 'A' ≤ c ∧ c ≤ 'F' then some (Fin.ofNat 16 (c.toNat - 'A'.toNat + 10))
  else none

/-- The digit with a given value. -/
def hexDigit (d : Fin 16) : Char := Nat.digitChar d.val

theorem hexDigit?_hexDigit : ∀ d : Fin 16, hexDigit? (hexDigit d) = some d := by decide

end CatalogSync
