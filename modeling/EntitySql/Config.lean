import EntitySql.Ids.Generator
import EntitySql.Ids.Worker
import EntitySql.Query.Compiled
import EntitySql.Toml.Document

/-!
Settings of the compiler and of the generator of ids, read from TOML. Every setting has a default, and unknown keys
are ignored.
-/
namespace EntitySql

/-- Settings of a generator. -/
structure GeneratorConfig where
  epoch : Int := Ids.defaultEpoch
  /-- The worker; one is chosen by the host if it is absent. -/
  worker : Option Nat := none
  deriving DecidableEq, Repr, Inhabited

/-- All settings. -/
structure Config where
  compiler : CompilerConfig := {}
  generator : GeneratorConfig := {}
  deriving DecidableEq, Repr, Inhabited

/-- A generator as configured: its worker is the given one, otherwise `hostWorker`. -/
def GeneratorConfig.start (config : GeneratorConfig) (hostWorker : Nat) (clock : Ids.Clock) :
    Except Ids.IdError Ids.Generator × Nat :=
  Ids.Generator.withClock (config.worker.getD hostWorker) config.epoch clock

namespace Config
open Toml (Item Entries)

/-- The setting of a key, or the next item of a list; `absent` if there is none. -/
def setting {α : Type} (absent : α) (read : Item → Option α) : Option Item → Option α
  | some item => read item
  | none => some absent

/-- A record of two settings, by their keys or by their places in a list. -/
def pair {α β γ : Type} (make : α → β → γ) (first second : String) (a : Option Item → Option α)
    (b : Option Item → Option β) (item : Item) : Option γ := do
  match item.items? with
  | some items => return make (← a items[0]?) (← b items[1]?)
  | none =>
    let entries ← item.entries?
    return make (← a (Entries.get? entries first)) (← b (Entries.get? entries second))

/-- Nothing, as a table or a list. -/
def isEmpty : Item → Bool
  | .array items => items.isEmpty
  | .inlineTable entries => entries.isEmpty
  | .table _ entries => entries.isEmpty
  | .tables elements => elements.isEmpty
  | _ => false

/-- A dialect by its name, which may be the only key of a table and hold nothing. -/
def dialect : Item → Option Dialect
  | .string name => Dialect.all.find? (·.label == name)
  | .datetime => none
  | item =>
    match item.entries? with
    | some [(name, content)] => if isEmpty content then Dialect.all.find? (·.label == name) else none
    | _ => none

def boolean : Item → Option Bool
  | .boolean b => some b
  | _ => none

def integer : Item → Option Int
  | .integer n => some n
  | _ => none

def word16 : Item → Option Nat
  | .integer n => if 0 ≤ n && n < UInt16.size then some n.toNat else none
  | _ => none

def compilerConfig : Item → Option CompilerConfig :=
  pair CompilerConfig.mk "dialect" "create_schemas" (setting .postgres dialect) (setting true boolean)

def generatorConfig : Item → Option GeneratorConfig :=
  pair GeneratorConfig.mk "epoch_millis" "worker_id" (setting Ids.defaultEpoch integer)
    (setting none fun item => (word16 item).map some)

/-- The settings in a TOML text; none if it is malformed or does not fit. -/
def ofToml? (text : String) : Option Config := do
  let root ← Toml.parse text
  pair Config.mk "compiler" "snowflake" (setting {} compilerConfig) (setting {} generatorConfig)
    (.table .declared root)

end Config

end EntitySql
