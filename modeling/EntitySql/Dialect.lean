import EntitySql.Text.Quoted
import EntitySql.Text.Upper

/-!
SQL dialects and the few points in which they differ.
-/
namespace EntitySql

/-- The SQL that is written. -/
inductive Dialect where
  | postgres
  | sqlite
  deriving DecidableEq, Repr, Inhabited

/-- The name of a table or view with its namespace. -/
structure ObjectName where
  ns : Option String
  name : String
  deriving DecidableEq, Repr, Inhabited

/-- A name in double quotes, its own quotes doubled. -/
def quoteName (name : String) : String :=
  Text.quoted '"' name

namespace Dialect

def label : Dialect → String
  | postgres => "postgres"
  | sqlite => "sqlite"

def all : List Dialect :=
  [postgres, sqlite]

/-- A dialect by one of its names, in any case. -/
def ofName? (name : String) : Option Dialect :=
  let lower := Text.lowerAscii name
  if lower ∈ ["postgres", "postgresql", "pg"] then some postgres
  else if lower ∈ ["sqlite", "sqlite3"] then some sqlite
  else none

/-- The message for a name that means no dialect. -/
def unknownMessage (name : String) : String :=
  "unknown dialect '" ++ Text.lowerAscii name ++ "'"

def hasNamespaces : Dialect → Bool
  | postgres => true
  | sqlite => false

def defaultNamespace? : Dialect → Option String
  | postgres => some "public"
  | sqlite => none

/-- A quoted name after its quoted namespace; without namespaces the name alone. -/
def qualify (d : Dialect) (object : ObjectName) : String :=
  match object.ns with
  | some ns => if d.hasNamespaces then quoteName ns ++ "." ++ quoteName object.name else quoteName object.name
  | none => quoteName object.name

def placeholderMark : Dialect → Char
  | postgres => '$'
  | sqlite => '?'

/-- The placeholder of a binding, counted from one. -/
def placeholder (d : Dialect) (index : Nat) : String :=
  String.singleton d.placeholderMark ++ toString index

def nullSafeEquals : Dialect → String
  | postgres => "IS NOT DISTINCT FROM"
  | sqlite => "IS"

def caseFold (expr : String) : String :=
  "LOWER(" ++ expr ++ ")"

def booleanType : Dialect → String
  | postgres => "BOOLEAN"
  | sqlite => "INTEGER"

def textType : Dialect → String
  | postgres => "VARCHAR"
  | sqlite => "TEXT"

def blobType : Dialect → String
  | postgres => "BYTEA"
  | sqlite => "BLOB"

def hasArrays : Dialect → Bool
  | postgres => true
  | sqlite => false

def arrayType? (d : Dialect) (element : String) : Option String :=
  if d.hasArrays then some (element ++ " ARRAY") else none

/-- The words that create a view and do no harm if it exists. -/
def createView : Dialect → String
  | postgres => "CREATE OR REPLACE VIEW"
  | sqlite => "CREATE VIEW IF NOT EXISTS"

def createNamespace? (d : Dialect) (ns : String) : Option String :=
  if d.hasNamespaces then some ("CREATE SCHEMA IF NOT EXISTS " ++ quoteName ns) else none

def limit (n : UInt64) : String :=
  "LIMIT " ++ toString n.toNat

end Dialect

end EntitySql
