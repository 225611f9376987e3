import EntitySql.Dialect

/-!
Statements that create tables and views, and their text in a dialect.
-/
namespace EntitySql.Ddl

/-- The default value of a column: a text, or SQL that stands as it is. -/
inductive DefaultValue where
  | text (value : String)
  | verbatim (sql : String)
  deriving DecidableEq, Repr, Inhabited

/-- The line of a column. -/
structure ColumnLine where
  name : String
  type : String
  default? : Option DefaultValue
  notNull : Bool
  deriving DecidableEq, Repr, Inhabited

/-- A named constraint. -/
inductive Constraint where
  | primaryKey (name : String) (columns : List String)
  | unique (name : String) (columns : List String)
  | foreignKey (name : String) (columns : List String) (target : ObjectName) (targetColumns : List String)
  deriving DecidableEq, Repr, Inhabited

def Constraint.name : Constraint → String
  | primaryKey name _ => name
  | unique name _ => name
  | foreignKey name _ _ _ => name

/-- A column that a view selects, from the base or from a joined table, and its new name if it gets one. -/
structure SelectItem where
  source : Option ObjectName
  column : String
  newName? : Option String
  deriving DecidableEq, Repr, Inhabited

def SelectItem.outputName (item : SelectItem) : String :=
  item.newName?.getD item.column

/-- A joined table, and the columns of the base and of it that must be equal. -/
structure Join where
  table : ObjectName
  baseColumn : String
  column : String
  deriving DecidableEq, Repr, Inhabited

/-- A statement that creates something. -/
inductive Create where
  | table (name : ObjectName) (columns : List ColumnLine) (constraints : List Constraint)
  | view (name : ObjectName) (items : List SelectItem) (base : ObjectName) (joins : List Join)
  deriving DecidableEq, Repr, Inhabited

def Create.name : Create → ObjectName
  | table name _ _ => name
  | view name _ _ _ => name

/-- The tables and views that a statement names besides the one it creates. -/
def Create.referenced : Create → List ObjectName
  | table _ _ constraints => constraints.filterMap fun
    | .foreignKey _ _ target _ => some target
    | _ => none
  | view _ _ base joins => base :: joins.map (·.table)

def nameList (names : List String) : String :=
  ", ".intercalate (names.map quoteName)

def DefaultValue.sql : DefaultValue → String
  | text value => Text.quoted '\'' value
  | verbatim sql => sql

def ColumnLine.sql (line : ColumnLine) : String :=
  quoteName line.name ++ " " ++ line.type ++
    (match line.default? with
      | some value => " DEFAULT " ++ value.sql
      | none => "") ++
    (if line.notNull then " NOT NULL" else "")

def Constraint.sql (d : Dialect) : Constraint → String
  | primaryKey name columns => "CONSTRAINT " ++ quoteName name ++ " PRIMARY KEY (" ++ nameList columns ++ ")"
  | unique name columns => "CONSTRAINT " ++ quoteName name ++ " UNIQUE (" ++ nameList columns ++ ")"
  | foreignKey name columns target targetColumns =>
    "CONSTRAINT " ++ quoteName name ++ " FOREIGN KEY (" ++ nameList columns ++ ") REFERENCES " ++
      d.qualify target ++ " (" ++ nameList targetColumns ++ ")"

def SelectItem.sql (d : Dialect) (item : SelectItem) : String :=
  (item.source.map d.qualify).getD "B" ++ "." ++ quoteName item.column ++
    (match item.newName? with
      | some name => " AS " ++ quoteName name
      | none => "")

/-- The text of a join, on a line of its own. -/
def Join.sql (d : Dialect) (join : Join) : String :=
  "\nJOIN " ++ d.qualify join.table ++ " ON B." ++ quoteName join.baseColumn ++ " = " ++ d.qualify join.table ++
    "." ++ quoteName join.column

def Create.sql (d : Dialect) : Create → String
  | table name columns constraints =>
    "CREATE TABLE IF NOT EXISTS " ++ d.qualify name ++ " (\n" ++
      ",\n".intercalate ((columns.map ColumnLine.sql ++ constraints.map (Constraint.sql d)).map ("    " ++ ·)) ++
      "\n)"
  | view name items base joins =>
    d.createView ++ " " ++ d.qualify name ++ " AS SELECT " ++ ", ".intercalate (items.map (SelectItem.sql d)) ++
      "\nFROM " ++ d.qualify base ++ " B" ++ String.join (joins.map (Join.sql d))

end EntitySql.Ddl
