/-!
Items of a TOML document, and the rules by which keys and headers build up tables: a key is set once, a table is
declared once, and dotted keys extend only tables that dotted keys have made.
-/
namespace EntitySql.Toml

/-- How a table came about. -/
inductive Origin where
  /-- By a header of its own. -/
  | declared
  /-- By the header of a table inside it. -/
  | implied
  /-- By a dotted key. -/
  | dotted
  deriving DecidableEq, Repr, Inhabited

/-- A value, or a table. -/
inductive Item where
  | string (value : String)
  | integer (value : Int)
  | boolean (value : Bool)
  | float
  /-- A date, a time, or both. -/
  | datetime
  | array (items : List Item)
  /-- A table written as a value, which nothing extends. -/
  | inlineTable (entries : List (String × Item))
  | table (origin : Origin) (entries : List (String × Item))
  /-- Tables with one header each. -/
  | tables (elements : List (List (String × Item)))
  deriving Repr, Inhabited

/-- The entries of a table, in the order of their keys' first mention. -/
abbrev Entries := List (String × Item)

namespace Entries

def get? (entries : Entries) (key : String) : Option Item :=
  (entries.find? (·.1 == key)).map (·.2)

/-- Replaces the item of a key, or appends it. -/
def put (entries : Entries) (key : String) (item : Item) : Entries :=
  if entries.any (·.1 == key) then entries.map fun e => if e.1 == key then (key, item) else e
  else entries ++ [(key, item)]

/-- Changes the table at a path. Tables that are missing on the way are made with origin `fresh`; of an array of
tables the last is meant; a dotted key does not enter a declared table. -/
def within (fresh : Origin) (change : Origin → Entries → Option Entries) :
    List String → Origin → Entries → Option Entries
  | [], origin, entries => change origin entries
  | key :: path, _, entries =>
    match get? entries key with
    | none => do
      let inner ← within fresh change path fresh []
      return put entries key (.table fresh inner)
    | some (.table origin inner) =>
      if fresh = .dotted && origin = .declared then none
      else do
        let inner ← within fresh change path origin inner
        return put entries key (.table origin inner)
    | some (.tables elements) =>
      match elements.getLast? with
      | none => none
      | some inner => do
        let inner ← within fresh change path .declared inner
        return put entries key (.tables (elements.dropLast ++ [inner]))
    | some _ => none

/-- Sets a key that is not yet set; a table made otherwise than by dotted keys takes no dotted keys. -/
def set (path : List String) (key : String) (item : Item) (entries : Entries) : Option Entries :=
  within .dotted (fun origin inner =>
    if (origin = .dotted) = path.isEmpty then none
    else match get? inner key with
      | some _ => none
      | none => some (inner ++ [(key, item)])) path .declared entries

def setAll : List (List String × String × Item) → Entries → Option Entries
  | [], entries => some entries
  | (path, key, item) :: rest, entries => do setAll rest (← set path key item entries)

/-- Adds the table of a header with its keys. -/
def declare (path : List String) (key : String) (keys : List (List String × String × Item)) (root : Entries) :
    Option Entries :=
  within .implied (fun _ inner =>
    match get? inner key with
    | none => (setAll keys []).map fun made => put inner key (.table .declared made)
    | some (.table .implied old) => (setAll keys old).map fun made => put inner key (.table .declared made)
    | some _ => none) path .declared root

/-- Adds a table of a header to an array of tables. -/
def declareElement (path : List String) (key : String) (keys : List (List String × String × Item))
    (root : Entries) : Option Entries :=
  within .implied (fun _ inner =>
    match get? inner key with
    | none => (setAll keys []).map fun made => put inner key (.tables [made])
    | some (.tables old) => (setAll keys []).map fun made => put inner key (.tables (old ++ [made]))
    | some _ => none) path .declared root

end Entries

namespace Item

/-- The entries of a table in any form. A date has none. -/
def entries? : Item → Option Entries
  | inlineTable entries => some entries
  | table _ entries => some entries
  | datetime => some []
  | _ => none

def items? : Item → Option (List Item)
  | array items => some items
  | tables elements => some (elements.map (Item.table .declared))
  | _ => none

end Item

end EntitySql.Toml
