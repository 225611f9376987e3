/-!
Resolved references between tables, and the foreign keys they make up. The references of a table to one target are
one key; a reference to a target column that another reference also has is a key of its own.
-/
namespace EntitySql

/-- A join column resolved to a column of one of `n` tables. -/
structure Reference (n : Nat) where
  field : String
  column : String
  target : Fin n
  targetField : String
  targetColumn : String
  deriving DecidableEq, Repr

/-- References that make up one foreign key. -/
structure ForeignKey (n : Nat) where
  target : Fin n
  /-- Columns with the target columns they refer to. -/
  pairs : List (String × String)
  deriving DecidableEq, Repr

namespace ForeignKey
variable {n : Nat}

def columns (k : ForeignKey n) : List String :=
  k.pairs.map (·.1)

def targetColumns (k : ForeignKey n) : List String :=
  k.pairs.map (·.2)

def collides (refs : List (Reference n)) (r : Reference n) : Bool :=
  refs.any fun o => o.field ≠ r.field && o.target = r.target && o.targetColumn = r.targetColumn

/-- The references that share a key with `r`, itself included. -/
def companions (refs : List (Reference n)) (r : Reference n) : List (Reference n) :=
  if collides refs r then [r] else refs.filter fun o => o.target = r.target && !collides refs o

/-- Whether `r` is the first reference of its key. -/
def leads (refs : List (Reference n)) (r : Reference n) : Bool :=
  ((companions refs r).head?.map (·.field)) == some r.field

/-- The foreign keys of a table, in the order of their first references. -/
def ofReferences (refs : List (Reference n)) : List (ForeignKey n) :=
  (refs.filter (leads refs)).map fun r =>
    ⟨r.target, (companions refs r).map fun o => (o.column, o.targetColumn)⟩

end ForeignKey

end EntitySql
