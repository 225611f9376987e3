import EntitySql.Proofs.Sql.Reading

/-! What a comparison says where a value can be NULL. Its signs are read as two sides and the relation between them; a
side is a column, an argument, or another side in lower case. Main statement: a comparison of a column with an argument
takes two NULLs for equal exactly if its relation is the null-safe one, and it never takes a value and NULL for
equal. -/
namespace EntitySql.Sql
variable {V : Type}

/-- The values that a comparison can mention. None is NULL. -/
structure Row (V : Type) where
  column : String → Option V
  /-- The arguments by their numbers. -/
  argument : ℕ → Option V
  same : V → V → Bool
  /-- A value in lower case. -/
  lower : V → V

/-- A side of a comparison. -/
inductive Term where
  | column (name : String)
  | argument (number : ℕ)
  | lower (term : Term)
  deriving DecidableEq, Repr

/-- The value of a side: NULL in lower case is NULL. -/
def Term.value (row : Row V) : Term → Option V
  | column name => row.column name
  | argument number => row.argument number
  | lower term => (term.value row).map row.lower

/-- How two sides are compared. -/
inductive Relation where
  | equal
  /-- Equality in which NULL is a value of its own. -/
  | nullSafe
  deriving DecidableEq, Repr

def Truth.ofBool (b : Bool) : Truth :=
  if b then yes else no

def Relation.truth (same : V → V → Bool) : Relation → Option V → Option V → Truth
  | _, some v, some w => .ofBool (same v w)
  | equal, _, _ => .unknown
  | nullSafe, none, none => .yes
  | nullSafe, _, _ => .no

/-- A comparison of two sides. -/
structure Equation where
  left : Term
  relation : Relation
  right : Term
  deriving DecidableEq, Repr

def Equation.truth (row : Row V) (e : Equation) : Truth :=
  e.relation.truth row.same (e.left.value row) (e.right.value row)

def number? (digits : List Char) : Option ℕ :=
  if digits ≠ [] ∧ ∀ c ∈ digits, c.isDigit then some (Nat.ofDigitChars 10 digits 0) else none

/-- The placeholder that signs begin with, and the signs after it. -/
def placeholder? : Dialect → List Sign → Option (Term × List Sign)
  | .postgres, .word ('$' :: digits) :: rest => (number? digits).map fun number => (.argument number, rest)
  | .sqlite, .symbol '?' :: .word digits :: rest => (number? digits).map fun number => (.argument number, rest)
  | _, _ => none

/-- The side that signs begin with, and the signs after it. -/
def term? (d : Dialect) : List Sign → Option (Term × List Sign)
  | .quoted '"' name :: rest => some (.column (String.ofList name), rest)
  | .word ['L', 'O', 'W', 'E', 'R'] :: .opening :: rest =>
    match term? d rest with
    | some (term, .closing :: rest) => some (.lower term, rest)
    | _ => none
  | ss => placeholder? d ss

/-- The signs of a relation in a dialect. -/
def Relation.signs : Dialect → Relation → List Sign
  | _, equal => [.symbol '=']
  | .postgres, nullSafe => [.word "IS".toList, .word "NOT".toList, .word "DISTINCT".toList, .word "FROM".toList]
  | .sqlite, nullSafe => [.word "IS".toList]

/-- The relation that signs begin with, and the signs after it. -/
def relation? (d : Dialect) (ss : List Sign) : Option (Relation × List Sign) :=
  [Relation.equal, .nullSafe].findSome? fun relation =>
    if relation.signs d <+: ss then some (relation, ss.drop (relation.signs d).length) else none

/-- The comparison that signs are read as. -/
def equation? (d : Dialect) (ss : List Sign) : Option Equation := do
  let (left, ss) ← term? d ss
  let (relation, ss) ← relation? d ss
  let (right, ss) ← term? d ss
  if ss = [] then some ⟨left, relation, right⟩ else none

/-- What signs say of a row, if they are a comparison. -/
def Row.truth? (row : Row V) (d : Dialect) (ss : List Sign) : Option Truth :=
  (equation? d ss).map (Equation.truth row)

/-- A comparison of a column with an argument in which NULL equals NULL and nothing else. -/
structure NullSafe (d : Dialect) (ss : List Sign) (column : String) (number : ℕ) : Prop where
  both : ∀ {V : Type} (row : Row V), row.column column = none → row.argument number = none →
    row.truth? d ss = some .yes
  one : ∀ {V : Type} (row : Row V), ¬(row.column column = none ↔ row.argument number = none) →
    ∃ truth, row.truth? d ss = some truth ∧ truth ≠ .yes

/-- A side, in lower case if asked for. -/
def Term.lowerIf (folded : Bool) (term : Term) : Term :=
  if folded then lower term else term

@[simp]
theorem Term.value_lowerIf_eq_none {row : Row V} {folded : Bool} {term : Term} :
    (term.lowerIf folded).value row = none ↔ term.value row = none := by
  cases folded with
  | true => simp [lowerIf, value]
  | false => rfl

/-- The comparison of a column with an argument, both in lower case if asked for. -/
def Equation.ofColumn (folded : Bool) (relation : Relation) (column : String) (number : ℕ) : Equation :=
  ⟨(Term.column column).lowerIf folded, relation, (Term.argument number).lowerIf folded⟩

section
variable {d : Dialect} {ss : List Sign} {folded : Bool} {relation : Relation} {column : String} {number : ℕ}

theorem Relation.truth_ne_yes {same : V → V → Bool} {v w : Option V} (h : ¬(v = none ↔ w = none)) :
    relation.truth same v w ≠ .yes := by
  cases relation <;> cases v <;> cases w <;> simp [truth] at h ⊢

/-- No comparison takes a value and NULL for equal. -/
theorem truth?_ne_yes (h : equation? d ss = some (.ofColumn folded relation column number)) (row : Row V)
    (hone : ¬(row.column column = none ↔ row.argument number = none)) :
    ∃ truth, row.truth? d ss = some truth ∧ truth ≠ .yes := by
  have htruth : row.truth? d ss = some (Equation.truth row (.ofColumn folded relation column number)) := by
    rw [Row.truth?, h, Option.map_some]
  refine ⟨_, htruth, Relation.truth_ne_yes ?_⟩
  simpa [Equation.ofColumn, Term.value] using hone

theorem truth?_of_nulls (h : equation? d ss = some (.ofColumn folded relation column number)) {row : Row V}
    (hcolumn : row.column column = none) (hargument : row.argument number = none) :
    row.truth? d ss = some (relation.truth row.same none none) := by
  have hleft : ((Term.column column).lowerIf folded).value row = none := Term.value_lowerIf_eq_none.2 hcolumn
  have hright : ((Term.argument number).lowerIf folded).value row = none := Term.value_lowerIf_eq_none.2 hargument
  rw [Row.truth?, h, Option.map_some, Equation.truth, Equation.ofColumn, hleft, hright]

/-- A comparison is null-safe exactly if its relation is. -/
theorem nullSafe_iff (h : equation? d ss = some (.ofColumn folded relation column number)) :
    NullSafe d ss column number ↔ relation = .nullSafe := by
  constructor
  · intro hsafe
    let nulls : Row Unit := ⟨fun _ => none, fun _ => none, fun _ _ => true, id⟩
    have hboth := hsafe.both nulls rfl rfl
    rw [truth?_of_nulls h rfl rfl] at hboth
    cases relation with
    | equal => simp [Relation.truth] at hboth
    | nullSafe => rfl
  · rintro rfl
    exact ⟨fun row hcolumn hargument => truth?_of_nulls h hcolumn hargument, fun row => truth?_ne_yes h row⟩

end

end EntitySql.Sql
