import CatalogSync.Json.Basic
import CatalogSync.Number.Literal
import CatalogSync.Sorted.Map
import CatalogSync.Text.Hex

/- Reading JSON text. Blanks may stand between tokens; text after the value other than blanks is
   refused. Of several members of one object with the same name the last counts, and the members
   come out in ascending order of names. The recursion is bounded by twice the length of the text,
   since of two steps at least one consumes a character. -/
namespace CatalogSync

namespace Json

/-- Drops the blanks that may stand between tokens. -/
def skipBlanks (cs : List Char) : List Char :=
  cs.dropWhile fun c => c = ' ' || c = '\t' || c = '\n' || c = '\r'

/-- The number spelt by four hexadecimal digits. -/
def unit? (a b c d : Char) : Option Nat := do
  let a ← hexDigit? a
  let b ← hexDigit? b
  let c ← hexDigit? c
  let d ← hexDigit? d
  some (((a.val * 16 + b.val) * 16 + c.val) * 16 + d.val)

/-- The character that stands behind a backslash for itself or for a control character. -/
def escape? : Char → Option Char
  | '"' => some '"'
  | '\\' => some '\\'
  | '/' => some '/'
  | 'b' => some '\x08'
  | 'f' => some '\x0c'
  | 'n' => some '\n'
  | 'r' => some '\r'
  | 't' => some '\t'
  | _ => none

/-- The rest of a string behind its opening quote, and what follows the closing one. Characters
    beyond the basic plane may be escaped as a pair of surrogates; a surrogate alone is refused,
    and so is a control character that is not escaped. -/
def readText : List Char → Option (List Char × List Char)
  | '"' :: cs => some ([], cs)
  | '\\' :: 'u' :: a :: b :: c :: d :: '\\' :: 'u' :: e :: f :: g :: h :: cs => do
    let hi ← unit? a b c d
    if 0xD800 ≤ hi ∧ hi < 0xDC00 then
      let lo ← unit? e f g h
      if 0xDC00 ≤ lo ∧ lo < 0xE000 then
        let (s, r) ← readText cs
        some (Char.ofNat (0x10000 + (hi - 0xD800) * 0x400 + (lo - 0xDC00)) :: s, r)
      else none
    else if 0xDC00 ≤ hi ∧ hi < 0xE000 then none
    else
      let (s, r) ← readText ('\\' :: 'u' :: e :: f :: g :: h :: cs)
      some (Char.ofNat hi :: s, r)
  | '\\' :: 'u' :: a :: b :: c :: d :: cs => do
    let n ← unit? a b c d
    if 0xD800 ≤ n ∧ n < 0xE000 then none
    else
      let (s, r) ← readText cs
      some (Char.ofNat n :: s, r)
  | '\\' :: c :: cs => do
    let c ← escape? c
    let (s, r) ← readText cs
    some (c :: s, r)
  | c :: cs => do
    if c.toNat < 0x20 then none
    else
      let (s, r) ← readText cs
      some (c :: s, r)
  | [] => none

/-- Drops a given word from the front. -/
def readWord? : List Char → List Char → Option (List Char)
  | [], cs => some cs
  | w :: ws, c :: cs => if w = c then readWord? ws cs else none
  | _ :: _, [] => none

def ofNumber : Number → Json
  | .int n => .int n
  | .float x => .float x

def readNumber (cs : List Char) : Option (Json × List Char) := do
  let (l, r) ← Literal.scan cs
  let n ← l.value?
  some (ofNumber n, r)

/-- The members of an object as given, brought into order; of several with one name the last
    counts. -/
def ofMembers (ms : List (String × Json)) : Json := .obj (SortedMap.ofList ms).entries

mutual

/-- The value at the front of a text, behind blanks, and what follows it. -/
def readValue : Nat → List Char → Option (Json × List Char)
  | 0, _ => none
  | fuel + 1, cs =>
    match skipBlanks cs with
    | '[' :: r =>
      match skipBlanks r with
      | ']' :: r => some (.arr [], r)
      | r => (readItems fuel r).map fun p => (.arr p.1, p.2)
    | '\x7b' :: r =>
      match skipBlanks r with
      | '\x7d' :: r => some (.obj [], r)
      | r => (readMembers fuel r).map fun p => (ofMembers p.1, p.2)
    | '"' :: r => (readText r).map fun p => (.str (String.ofList p.1), p.2)
    | 'n' :: r => (readWord? ['u', 'l', 'l'] r).map (.null, ·)
    | 't' :: r => (readWord? ['r', 'u', 'e'] r).map (.bool true, ·)
    | 'f' :: r => (readWord? ['a', 'l', 's', 'e'] r).map (.bool false, ·)
    | r => readNumber r

/-- Items up to the closing bracket; there is at least one. -/
def readItems : Nat → List Char → Option (List Json × List Char)
  | 0, _ => none
  | fuel + 1, cs => do
    let (x, r) ← readValue fuel cs
    match skipBlanks r with
    | ',' :: r => (readItems fuel r).map fun p => (x :: p.1, p.2)
    | ']' :: r => some ([x], r)
    | _ => none

/-- Members up to the closing brace; there is at least one. -/
def readMembers : Nat → List Char → Option (List (String × Json) × List Char)
  | 0, _ => none
  | fuel + 1, cs =>
    match skipBlanks cs with
    | '"' :: r => do
      let (name, r) ← readText r
      match skipBlanks r with
      | ':' :: r => do
        let (x, r) ← readValue fuel r
        match skipBlanks r with
        | ',' :: r => (readMembers fuel r).map fun p => ((String.ofList name, x) :: p.1, p.2)
        | '\x7d' :: r => some ([(String.ofList name, x)], r)
        | _ => none
      | _ => none
    | _ => none

end

/-- The value of a JSON text. -/
def parse? (text : String) : Option Json := do
  let cs := text.toList
  let (x, r) ← readValue (2 * cs.length + 1) cs
  if (skipBlanks r).isEmpty then some x else none

end Json

end CatalogSync
