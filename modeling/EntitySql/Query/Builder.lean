import EntitySql.Query.Compiled
import EntitySql.Query.Resolve

/-!
The builder of statements. A statement is written in one pass: what is bound gets the next placeholder at once, and the
parts of the text are joined around the placeholders later. The steps that values need are collected on the way, for all
statements of an operation.
-/
namespace EntitySql.Query

/-- The steps before the statements of an operation, and the names that arrays of constants have got. -/
structure Prelude where
  steps : List PreludeStep := []
  enumLocals : List (Value × String) := []
  enumCount : Nat := 0
  deriving DecidableEq, Repr, Inhabited

/-- The names of an array of constants: those it has got before, or those of a further step. -/
def Prelude.enumNames (p : Prelude) (source : Value) (nullable : Bool) : Value × Prelude :=
  match p.enumLocals.find? (·.1 = source) with
  | some (_, name) => (.computed name, p)
  | none =>
    let name := enumLocal p.enumCount
    (.computed name,
      { steps := p.steps ++ [.enumNames name source nullable]
        enumLocals := p.enumLocals ++ [(source, name)]
        enumCount := p.enumCount + 1 })

/-- The form in which a value of a type is bound. -/
def Prelude.encode (p : Prelude) (value : Value) (type : ValueType) (nullable : Bool) :
    (Value × Encoding) × Prelude :=
  match type with
  | ⟨.enum, true⟩ =>
    let (value, p) := p.enumNames value nullable
    ((value, .sqlArray), p)
  | ⟨_, true⟩ => ((value, .sqlArray), p)
  | ⟨.enum, false⟩ => ((value, .enumName nullable), p)
  | _ => ((value, .plain), p)

/-- A statement that is being written: its bindings so far, and the steps of its operation so far. -/
structure Builder where
  dialect : Dialect
  prelude : Prelude := {}
  bindings : List Binding := []
  deriving DecidableEq, Repr, Inhabited

/-- A part of writing the statements of an operation. -/
abbrev Build := StateT Builder (Except CompileError)

namespace Builder

/-- Takes up a binding and hands out its placeholder. -/
def bind (b : Builder) (binding : Binding) : String × Builder :=
  let bindings := b.bindings ++ [binding]
  (b.dialect.placeholder bindings.length, { b with bindings })

def encode (b : Builder) (value : Value) (type : ValueType) (nullable : Bool) : (Value × Encoding) × Builder :=
  let (encoded, prelude) := b.prelude.encode value type nullable
  (encoded, { b with prelude })

/-- Binds the value of a column. -/
def bindColumn (b : Builder) (column : Column) (value : Value) : String × Builder :=
  let ((value, encoding), b) := b.encode value column.type column.isNullable
  b.bind ⟨value, some column.name, encoding⟩

/-- Binds a value that belongs to no column; one of an unknown type is bound as it is. -/
def bindRaw (b : Builder) (value : Value) (type? : Option ValueType) : String × Builder :=
  match type? with
  | some type =>
    let ((value, encoding), b) := b.encode value type true
    b.bind ⟨value, none, encoding⟩
  | none => b.bind ⟨value, none, .plain⟩

def addStep (b : Builder) (step : PreludeStep) : Builder :=
  { b with prelude := { b.prelude with steps := b.prelude.steps ++ [step] } }

/-- The builder for the next statement of the operation: nothing is bound yet, the steps stay. -/
def next (b : Builder) : Builder :=
  { b with bindings := [] }

/-- The statement of a text and of all that has been bound. -/
def finish (b : Builder) (sql : String) : CompiledStatement :=
  ⟨sql, b.bindings⟩

end Builder

/-- Texts for the elements of a list, any number for each, in order. -/
def gather {α : Type} (texts : α → Build (List String)) : List α → Build (List String)
  | [] => return []
  | a :: rest => do
    let first ← texts a
    return first ++ (← gather texts rest)

end EntitySql.Query
