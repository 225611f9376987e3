import EntitySql.Schema.Column
import EntitySql.Operation.Basic

/-!
Tables and views. A table keeps its columns in the order in which their fields were first added; a later column for
a field that is taken is not added, and its name is recorded.
-/
namespace EntitySql

/-- Columns in physical order, no two for one field. -/
structure Columns where
  toList : List Column
  nodup_fields : (toList.map Column.field).Nodup
  deriving DecidableEq, Repr

namespace Columns

def empty : Columns :=
  ⟨[], List.nodup_nil⟩

instance : Inhabited Columns := ⟨empty⟩

def get? (cs : Columns) (field : String) : Option Column :=
  cs.toList.find? (·.field == field)

def index? (cs : Columns) (field : String) : Option Nat :=
  cs.toList.findIdx? (·.field == field)

def named? (cs : Columns) (name : String) : Option Column :=
  cs.toList.find? (·.name == name)

theorem not_mem_fields_of_get? {cs : Columns} {field : String} (h : cs.get? field = none) :
    field ∉ cs.toList.map Column.field := by
  simp only [get?, List.find?_eq_none, beq_iff_eq] at h
  simpa [eq_comm] using fun c hc => h c hc

def push (cs : Columns) (c : Column) (h : cs.get? c.field = none) : Columns where
  toList := cs.toList ++ [c]
  nodup_fields := by
    have := not_mem_fields_of_get? h
    rw [List.map_append, List.nodup_append]
    refine ⟨cs.nodup_fields, by simp, ?_⟩
    intro a ha b hb hab
    simp only [List.map_cons, List.map_nil, List.mem_singleton] at hb
    exact this (hb ▸ hab ▸ ha)

end Columns

/-- Columns that are unique together, some given by field and some by physical name. -/
structure UniqueConstraint where
  fields : List String := []
  columns : List String := []
  deriving DecidableEq, Repr, Inhabited

/-- A table, or a view if it has a base. -/
structure Table where
  name : String
  ns : Option String := none
  columns : Columns := .empty
  uniqueConstraints : List UniqueConstraint := []
  /-- The table that a view selects from. -/
  viewOf : Option String := none
  operations : List Operation := []
  /-- Physical names of columns that were not added because their fields were taken. -/
  duplicates : List String := []
  deriving DecidableEq, Repr, Inhabited

namespace Table

def ofName (name : String) : Table :=
  { name }

def ofEntity (entity : String) : Table :=
  ofName (derivedName entity)

def view (name base : String) : Table :=
  { name, viewOf := some base }

def inNamespace (t : Table) (ns : String) : Table :=
  { t with ns := some ns }

/-- Renames the table; its columns keep the owner they have. -/
def renamed (t : Table) (name : String) : Table :=
  { t with name }

/-- Adds a column, which gets the table as owner and a derived name if it has none. If its field is taken, only its
name is recorded. -/
def addColumn (t : Table) (column : Column) : Table :=
  let c : Column := { column.nameFilled with owner := t.name }
  if h : t.columns.get? c.field = none then { t with columns := t.columns.push c h }
  else { t with duplicates := t.duplicates ++ [c.name] }

def withUnique (t : Table) (key : UniqueConstraint) : Table :=
  { t with uniqueConstraints := t.uniqueConstraints ++ [key] }

def addOperation (t : Table) (op : Operation) : Table :=
  { t with operations := t.operations ++ [op] }

def column? (t : Table) (field : String) : Option Column :=
  t.columns.get? field

/-- The columns of the primary key, in physical order. -/
def primaryKey (t : Table) : List Column :=
  t.columns.toList.filter (·.primaryKey)

def isView (t : Table) : Bool :=
  t.viewOf.isSome

def qualifiedName (t : Table) : String :=
  match t.ns with
  | some ns => ns ++ "." ++ t.name
  | none => t.name

end Table

/-- Tables and views in the order of their declaration. -/
structure Catalog where
  tables : List Table := []
  deriving DecidableEq, Repr, Inhabited

namespace Catalog

abbrev size (c : Catalog) : Nat :=
  c.tables.length

def table (c : Catalog) (i : Fin c.size) : Table :=
  c.tables[i]

def addTable (c : Catalog) (t : Table) : Catalog :=
  ⟨c.tables ++ [t]⟩

/-- The table that a name means: the first with this qualified name, otherwise the first with this bare name. -/
def index? (c : Catalog) (name : String) : Option (Fin c.size) :=
  (c.tables.findFinIdx? (·.qualifiedName == name)).or (c.tables.findFinIdx? (·.name == name))

end Catalog

end EntitySql
