import CatalogSync.Json.Form

/- Texts by locale, such as the name of a product in English and in German. -/
namespace CatalogSync

/-- A text for each of finitely many locales, in ascending order of locales. -/
abbrev LocalizedText := SortedMap String String

namespace LocalizedText

/-- One text for one locale. -/
def of (locale text : String) : LocalizedText := SortedMap.empty.insert locale text

/-- The text shown in messages: every locale with its text, in braces. -/
def display (t : LocalizedText) : String :=
  "\x7b" ++ String.intercalate ", " (t.entries.map fun e => e.1 ++ ": " ++ e.2) ++ "\x7d"

end LocalizedText

end CatalogSync
