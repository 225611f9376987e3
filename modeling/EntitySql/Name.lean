import EntitySql.Text.Upper

/-!
Physical names derived from the names of fields and entities.
-/
namespace EntitySql
open Text

/-- A character of a name after the first: an upper-case one starts a new word. -/
def wordChars (c : Char) : List Char :=
  if isUpper c then '_' :: upperOf c else upperOf c

/-- The derived name of a camel-case name: its words in upper case, joined by underscores. -/
def derivedChars : List Char → List Char
  | [] => []
  | c :: cs => upperOf c ++ cs.flatMap wordChars

/-- The physical name of a field or entity that declares none. -/
def derivedName (name : String) : String :=
  String.ofList (derivedChars name.toList)

end EntitySql
