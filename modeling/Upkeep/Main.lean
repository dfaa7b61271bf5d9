import Std.Time.DateTime.Timestamp
import Upkeep.Admin.Router
import Upkeep.Daemon

/-!
The command line. The store is a directory; admin requests come from standard input, one in each
line as a method, a target and, if need be, a token. No token endpoint is in reach.
-/

namespace Upkeep.Main

def help : String :=
  "Keeps DID sessions warm with staggered background refresh.\n\nUsage: didkeep [OPTIONS]\n\nOptions:\n"
    ++ String.join (Settings.flags.map fun f => "  " ++ f.name ++ " <VALUE>  [env: " ++ f.environment ++ "]\n")

def version : String := "didkeep 0.1.0"

/-- The variables that settings may come from. -/
def environment : IO CommandLine.Values := do
  let names := Settings.flags.map (·.environment) ++ ["HOME", "XDG_STATE_HOME"]
  let values ← names.mapM fun name => return (← IO.getEnv name).map fun value => (name, value)
  return values.filterMap id

def clock : IO UInt64 := return UInt64.ofNat (← Std.Time.Timestamp.now).toSecondsSinceUnixEpoch.val.toNat

def path (dir : String) (name : Bytes) := System.mkFilePath [dir, Utf8.lossy name]

/-- What is in a directory. -/
def load (dir : String) : IO Store.Directory := do
  let entries ← (System.mkFilePath [dir]).readDir
  let read ← entries.toList.mapM fun e => do
    let name := Utf8.encode e.fileName
    if ← e.path.isDir then return (name, Store.Entry.directory)
    else return (name, .file (← IO.FS.readBinFile e.path).toList)
  return ⟨true, Table.ofList read⟩

/-- Makes a directory what it has become; each changed file is replaced as a whole. -/
def save (dir : String) (before after : Store.Directory) : IO Unit := do
  for (name, entry) in after.entries do
    if before.entries.get? name ≠ some entry then
      match entry with
      | .file content =>
        let temporary := path dir (name ++ Store.FileNames.temporaryEnding)
        IO.FS.writeBinFile temporary ⟨content.toArray⟩
        IO.FS.rename temporary (path dir name)
      | .directory => IO.FS.createDirAll (path dir name)
  for (name, _) in before.entries do
    if (after.entries.get? name).isNone then IO.FS.removeFile (path dir name)

/-- A run in progress. -/
structure Running where
  dir : String
  outside : Outside Daemon.Place
  line : Timeline Daemon.Place
  /-- When the run began, by the system's own clock. -/
  origin : Nat

/-- The most events of one turn. -/
def maxEvents : Nat := Nat.pow 2 32

/-- One turn: takes in the directory and the time, does what is due and what is asked, and writes
the directory back. -/
def turn {α : Type} (s : Running) (ask : Timeline Daemon.Place → α × Timeline Daemon.Place) :
    IO (α × Running) := do
  let before ← load s.dir
  let place : Daemon.Place := { s.line.outside with
    disk := { s.line.outside.disk with disk := before }
    clock := ← clock }
  let elapsed := (← IO.monoNanosNow) - s.origin
  let (a, line) := ask ((s.line.withOutside place).advanceTo s.outside elapsed maxEvents)
  let line := line.settle s.outside maxEvents
  save s.dir before line.outside.disk.disk
  return (a, { s with line := line })

def request (line : String) : Option Admin.Request :=
  match (line.splitOn " ").filter (!·.isEmpty) with
  | [method, target] => some ⟨method, target, []⟩
  | [method, target, token] =>
    some ⟨method, target, [⟨"authorization", Utf8.encode ("Bearer " ++ token)⟩]⟩
  | _ => none

def show' (r : Admin.Response) : String :=
  toString r.status ++ " " ++ match r.body with
    | .text s => s
    | .json v => v.render

/-- Answers requests until there are no more. -/
partial def serve (site : Admin.Site Expiry.Error) (s : Running) : IO Unit := do
  let line ← (← IO.getStdin).getLine
  if line.isEmpty then return
  match request (String.ofList (line.toList.filter (· != '\n'))) with
  | none => serve site s
  | some r =>
    let (response, s) ← turn s (·.run s.outside (site.respond r))
    IO.println ((response.map show').getD "")
    serve site s

/-- Runs the caretaker in its state directory. -/
def run (settings : Settings) (dir : String) : IO Daemon.Ending := do
  IO.FS.createDirAll dir
  let files : Store.FileStore := ⟨0, fun _ => 0⟩
  let outside := Daemon.outside files id (fun _ => .unreachable) settings.caretaker
  let place : Daemon.Place := ⟨Store.FileStore.open ⟨true, []⟩, ← clock⟩
  let s : Running := ⟨dir, outside, .start place false, ← IO.monoNanosNow⟩
  let (started, s) ← turn s (Daemon.start outside settings)
  match started with
  | .error ending => return ending
  | .ok handle =>
    serve ⟨settings.caretaker, Expiry.Error.message, handle, settings.authToken⟩ s
    let _ ← turn s (·.run outside handle.shutDown)
    return .normal

def exitCode (e : Daemon.Ending) : UInt32 := UInt32.ofNat e.code

end Upkeep.Main

open Upkeep in
def main (args : List String) : IO UInt32 := do
  let env ← Main.environment
  match Daemon.command env args with
  | .help =>
    IO.print Main.help
    return 0
  | .version =>
    IO.println Main.version
    return 0
  | .misused _ =>
    IO.eprint Main.help
    return Main.exitCode .misuse
  | .invalid f =>
    IO.eprintln ("invalid configuration: " ++ f.message)
    return Main.exitCode .misuse
  | .run settings =>
    try
      return Main.exitCode (← Main.run settings (settings.resolvedStateDir env))
    catch e =>
      IO.eprintln ("fatal: " ++ toString e)
      return Main.exitCode .fatal
