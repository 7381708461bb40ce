/- Blank text: absent, empty, or made of white space alone. White space is the Unicode property
   `White_Space`, twenty-five code points, so a key written with a no-break space or an
   ideographic space counts as blank too. Keys and skus are held to this test wherever one is
   required. -/
namespace CatalogSync

/-- The code points with the property `White_Space`, as closed ranges in ascending order. -/
def whiteSpaceRanges : List (Nat × Nat) :=
  [(0x09, 0x0D), (0x20, 0x20), (0x85, 0x85), (0xA0, 0xA0), (0x1680, 0x1680), (0x2000, 0x200A),
   (0x2028, 0x2029), (0x202F, 0x202F), (0x205F, 0x205F), (0x3000, 0x3000)]

/-- The character has the property `White_Space`. -/
def isWhiteSpace (c : Char) : Bool :=
  whiteSpaceRanges.any fun r => r.1 ≤ c.toNat && c.toNat ≤ r.2

/-- Text without any character other than white space; the empty text is one. -/
def isBlankText (s : String) : Bool := s.toList.all isWhiteSpace

/-- An optional text that is absent or blank. -/
def isBlank : Option String → Bool
  | none => true
  | some s => isBlankText s

@[simp] theorem isBlank_none : isBlank none = true := rfl

@[simp] theorem isBlank_some (s : String) : isBlank (some s) = isBlankText s := rfl

theorem isBlankText_empty : isBlankText "" = true := by decide

end CatalogSync
