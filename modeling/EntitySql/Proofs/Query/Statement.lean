import EntitySql.Operation.Basic
import EntitySql.Proofs.Query.Piece

/-!
Statements that read and change the rows of a table, and their pieces.
-/
namespace EntitySql.Query

/-- How a column is compared with a value. -/
inductive Comparison where
  /-- By an operator, after folding both sides to one case. -/
  | folded (operator : String)
  | nullSafe
  | plain (operator : String)
  deriving DecidableEq, Repr, Inhabited

/-- The comparison of a column with a slot. -/
structure Predicate where
  column : String
  comparison : Comparison
  slot : Slot
  deriving DecidableEq, Repr, Inhabited

/-- A condition: one predicate, or several of which any may hold. -/
inductive Condition where
  | one (predicate : Predicate)
  | anyOf (predicates : List Predicate)
  deriving DecidableEq, Repr, Inhabited

def Condition.predicates : Condition → List Predicate
  | one p => [p]
  | anyOf ps => ps

/-- What rows must satisfy: all conditions, joined to a raw predicate. -/
structure Filter where
  conditions : List Condition
  conjunction : Conjunction
  /-- The pieces of the raw predicate; none if there is no raw predicate. -/
  raw : List Piece
  deriving DecidableEq, Repr, Inhabited

/-- What a select returns of every row. -/
inductive Selection where
  | columns (names : List String)
  | expression (pieces : List Piece)
  deriving DecidableEq, Repr, Inhabited

/-- A statement on a table. -/
inductive Statement where
  /-- Columns with their values; without any, a row of defaults. -/
  | insert (table : ObjectName) (values : List (String × Slot))
  | update (table : ObjectName) (assignments : List (String × Slot)) (filter : Filter)
  | delete (table : ObjectName) (filter : Filter)
  | count (table : ObjectName) (filter : Filter)
  | select (table : ObjectName) (selection : Selection) (filter : Filter) (order : List (String × Direction))
      (limit : Option UInt64)
  deriving DecidableEq, Repr, Inhabited

def Predicate.pieces (p : Predicate) : List Piece :=
  match p.comparison with
  | .folded operator =>
    [.text "LOWER(", .name p.column, .text (") " ++ operator ++ " LOWER("), .slot p.slot, .text ")"]
  | .nullSafe => [.name p.column, .text " ", .nullSafeEquals, .text " ", .slot p.slot]
  | .plain operator => [.name p.column, .text (" " ++ operator ++ " "), .slot p.slot]

/-- The pieces of a condition: alternatives stand in brackets. -/
def Condition.pieces : Condition → List Piece
  | one p => p.pieces
  | anyOf ps => .text "(" :: separated " OR " (ps.map Predicate.pieces) ++ [.text ")"]

/-- The pieces of a WHERE clause. A raw predicate stands in brackets unless it is alone. -/
def Filter.pieces (f : Filter) : List Piece :=
  match f.conditions, f.raw with
  | [], [] => []
  | [], raw => .text " WHERE " :: raw
  | conditions, [] => .text " WHERE " :: separated " AND " (conditions.map Condition.pieces)
  | conditions, raw =>
    .text " WHERE " :: separated " AND " (conditions.map Condition.pieces) ++
      .text (" " ++ f.conjunction.sql ++ " (") :: raw ++ [.text ")"]

def Selection.pieces : Selection → List Piece
  | columns names => separated ", " (names.map fun name => [.name name])
  | expression pieces => pieces

def orderPieces : List (String × Direction) → List Piece
  | [] => []
  | keys =>
    .text " ORDER BY " ::
      separated ", " (keys.map fun (name, direction) => [.name name, .text (" " ++ direction.sql)])

def limitPieces : Option UInt64 → List Piece
  | some n => [.text (" " ++ Dialect.limit n)]
  | none => []

def Statement.pieces : Statement → List Piece
  | insert table [] => [.text "INSERT INTO ", .object table, .text " DEFAULT VALUES"]
  | insert table values =>
    [.text "INSERT INTO ", .object table, .text " ("] ++
      separated ", " (values.map fun (name, _) => [.name name]) ++ [.text ") VALUES ("] ++
      separated ", " (values.map fun (_, slot) => [.slot slot]) ++ [.text ")"]
  | update table assignments filter =>
    [.text "UPDATE ", .object table, .text " SET "] ++
      separated ", " (assignments.map fun (name, slot) => [.name name, .text " = ", .slot slot]) ++
      filter.pieces
  | delete table filter => [.text "DELETE FROM ", .object table] ++ filter.pieces
  | count table filter => [.text "SELECT COUNT(*) FROM ", .object table] ++ filter.pieces
  | select table selection filter order limit =>
    .text "SELECT " :: selection.pieces ++ [.text " FROM ", .object table] ++ filter.pieces ++
      orderPieces order ++ limitPieces limit

def Statement.sql (d : Dialect) (s : Statement) : String :=
  render d s.pieces

/-- The slots of a statement, in the order of their placeholders. -/
def Statement.slots (s : Statement) : List Slot :=
  Query.slots s.pieces

end EntitySql.Query
