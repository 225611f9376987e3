import EntitySql.CommandLine
import Std.Time.DateTime.Timestamp

/-!
The program: reads the files that its arguments name, prints what the command gives, and mints ids by the clock.
-/
namespace EntitySql.Program
open CommandLine

def now : IO Int := do
  return (← Std.Time.Timestamp.now).toMillisecondsSinceUnixEpoch.val

/-- The text of a file, or why there is none. -/
def readText (path : String) : IO (Except String String) := do
  try
    return .ok (← IO.FS.readFile path)
  catch
    | .noFileOrDirectory .. => return .error "No such file or directory (os error 2)"
    | .permissionDenied .. => return .error "Permission denied (os error 13)"
    | e => return .error (toString e)

def readFiles (i : Invocation) : IO (List (String × Except String String)) :=
  (i.configPath.toList ++ i.command.catalog?.toList).mapM fun path => do
    return (path, ← readText path)

/-- The worker of this host, by its name. -/
def hostWorker : IO Nat := do
  let host ← try IO.FS.readFile "/etc/hostname" catch _ => return (← IO.rand 0 Ids.maxWorker)
  return Ids.workerOf (Text.trim host).toUTF8.toList

/-- Mints an id, reading the clock until there is an answer. -/
partial def mintOne (g : Ids.Generator) : IO (Except Ids.IdError Nat × Ids.Generator) := do
  let reading ← now
  match g.next 1 (fun _ => reading) 0 with
  | some step => return (step.outcome, step.generator)
  | none => mintOne g

def mintAll (out : IO.FS.Stream) : Nat → Ids.Generator → IO (Option Ids.IdError)
  | 0, _ => return none
  | count + 1, g => do
    match ← mintOne g with
    | (.ok id, g) =>
      out.putStr (idLines [id])
      mintAll out count g
    | (.error e, _) => return some e

def finish (outcome : Outcome) : IO UInt32 := do
  (← IO.getStdout).putStr outcome.stdout
  match outcome.error with
  | some message => (← IO.getStderr).putStr ("Error: " ++ message ++ "\n")
  | none => pure ()
  return UInt32.ofNat outcome.exit

def main (args : List String) : IO UInt32 := do
  let environment ← IO.getEnv "SQLFORGE_CONFIG"
  match readArguments environment args with
  | .error refusal => finish (refusal.outcome environment)
  | .ok invocation =>
    let files ← readFiles invocation
    let lookup (path : String) : Except String String :=
      ((files.find? (·.1 = path)).map (·.2)).getD (.error "")
    match invocation.run lookup with
    | .done outcome => finish outcome
    | .mint config count =>
      let first ← now
      match config.start (← hostWorker) (fun _ => first) with
      | (.error e, _) => finish ((Failure.id e).outcome "")
      | (.ok g, _) =>
        match ← mintAll (← IO.getStdout) count g with
        | some e => finish ((Failure.id e).outcome "")
        | none => return 0

end EntitySql.Program

def main (args : List String) : IO UInt32 :=
  EntitySql.Program.main args
