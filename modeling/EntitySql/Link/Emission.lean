import EntitySql.Link.Linked
import EntitySql.Link.Placement

/-!
The order in which tables are created: each after all it depends on, tables before views, then in declaration
order. If no table is ready the rest holds a cycle, and a walk along unplaced dependencies finds one.
-/
namespace EntitySql
variable {c : Catalog}

namespace LinkedTable

/-- The other tables that a table refers to, and the base of a view. -/
def dependencies (t : LinkedTable c) : List (Fin c.size) :=
  (t.references.map (·.target)).filter (· ≠ t.index) ++ t.viewBase.toList

def dependsOn (t u : LinkedTable c) : Bool :=
  t.dependencies.contains u.index

end LinkedTable

namespace Link

def without (t : LinkedTable c) (waiting : List (LinkedTable c)) : List (LinkedTable c) :=
  waiting.filter (·.index ≠ t.index)

theorem length_without_lt {waiting : List (LinkedTable c)} {t : LinkedTable c} (h : t ∈ waiting) :
    (without t waiting).length < waiting.length :=
  List.length_filter_lt_length_iff_exists.2 ⟨t, h, by simp⟩

def unvisited (waiting path : List (LinkedTable c)) : List (LinkedTable c) :=
  waiting.filter fun t => !path.any (·.index = t.index)

theorem length_unvisited_lt {waiting path : List (LinkedTable c)} {u : LinkedTable c} (h : u ∈ waiting)
    (hu : ¬path.any (·.index = u.index) = true) :
    (unvisited waiting (path ++ [u])).length < (unvisited waiting path).length := by
  have hsub : unvisited waiting (path ++ [u]) = without u (unvisited waiting path) := by
    simp only [unvisited, without, List.filter_filter]
    congr 1
    funext t
    by_cases ht : u.index = t.index <;> simp [List.any_append, ht, eq_comm]
  rw [hsub]
  exact length_without_lt (List.mem_filter.2 ⟨h, by simpa using hu⟩)

/-- Walks from table to table along the first unplaced dependency until a table comes up again, and returns the path
from its first visit to its second. -/
def walk (waiting path : List (LinkedTable c)) (t : LinkedTable c) : List (LinkedTable c) :=
  match h : waiting.find? t.dependsOn with
  | none => path
  | some u =>
    if hu : path.any (·.index = u.index) then path.dropWhile (·.index ≠ u.index) ++ [u]
    else
      have := length_unvisited_lt (List.mem_of_find?_eq_some h) hu
      walk waiting (path ++ [u]) u
termination_by (unvisited waiting path).length

/-- A cycle among tables none of which is ready. -/
def cycle (waiting : List (LinkedTable c)) : List (LinkedTable c) :=
  match waiting with
  | [] => []
  | t :: _ => walk waiting [t] t

def selfBased? (tables : List (LinkedTable c)) : Option (LinkedTable c) :=
  tables.find? fun t => t.viewBase = some t.index

def graphOf (tables : List (LinkedTable c)) : Graph c.size where
  dependsOn i j := tables.any fun t => t.index = i && t.dependencies.contains j
  isView i := (c.table i).isView

/-- Indices of the tables in the order of creation. -/
def emissionOrder (tables : List (LinkedTable c)) : Except CompileError (List (Fin c.size)) :=
  match selfBased? tables with
  | some t => throw (.dependencyCycle [t.schema.qualifiedName, t.schema.qualifiedName])
  | none =>
    let g := graphOf tables
    let order := (g.place g.start).order
    if order.length < c.size then
      throw (.dependencyCycle ((cycle (tables.filter (·.index ∉ order))).map (·.schema.qualifiedName)))
    else return order

end Link

/-- A linked catalog: its tables in declaration order, and their indices in the order of creation. -/
structure LinkedCatalog (c : Catalog) where
  tables : List (LinkedTable c)
  order : List (Fin c.size)
  deriving DecidableEq, Repr

namespace LinkedCatalog

def ordered (l : LinkedCatalog c) : List (LinkedTable c) :=
  l.order.filterMap fun i => l.tables[i.val]?

def table? (l : LinkedCatalog c) (name : String) : Option (LinkedTable c) :=
  (c.index? name).bind fun i => l.tables.find? (·.index = i)

end LinkedCatalog

def Catalog.link (c : Catalog) : Except CompileError (LinkedCatalog c) := do
  let tables ← Link.linkTables c
  let order ← Link.emissionOrder tables
  return ⟨tables, order⟩

end EntitySql
