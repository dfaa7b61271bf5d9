import Upkeep.Store.FileNames
import Upkeep.Store.Files
import Upkeep.Store.Smallest

/-!
A store in a directory, one file per key. A value is written to a temporary file that is then
renamed, and writes to one key exclude each other by a lock that keys share in stripes. A scan
lists the directory once and keeps no more keys than it may answer.
-/

namespace Upkeep.Store

/-- How one process keeps a store in a directory. -/
structure FileStore where
  /-- The number of the process, part of its temporary names. -/
  process : UInt32
  /-- The lock of each key. -/
  stripe : String → Nat

namespace FileStore

/-- What room for one held key takes, in octets. -/
def keyRoom : Nat := 24

/-- The most octets one list may take. -/
def maxRoom : Nat := Nat.pow 2 63 - 1

/-- Room for one key more than a scan may answer. -/
def hasRoom (limit : Nat) : Bool := (limit + 1) * keyRoom ≤ maxRoom

def read (key : String) : Program files (Except Error (Option Bytes)) :=
  (Program.request (I := files) (.read (FileNames.ofKey key))).bind fun
    | .ok content => .done (.ok (some content))
    | .error .notFound => .done (.ok none)
    | .error e => .done (.error (.file e))

/-- The result of a step, whose failure is the store's. -/
def outcome : Except FileFault Unit → Program files (Except Error Unit)
  | .ok () => .done (.ok ())
  | .error e => .done (.error (.file e))

def appendAll (name : Bytes) : List Bytes → Program files (Except Error Unit)
  | [] => .done (.ok ())
  | part :: rest =>
    (Program.ask (Files.Request.append name part) outcome).onSuccess fun () => appendAll name rest

/-- Writes `parts` one after another to a temporary file and renames it. -/
def write (f : FileStore) (key : String) (parts : List Bytes) : Program files (Except Error Unit) :=
  .ask Files.Request.serial fun serial =>
    let name := FileNames.temporary key f.process.toNat serial
    (Program.ask (Files.Request.create name) outcome).onSuccess fun () =>
      (appendAll name parts).onSuccess fun () =>
        .ask (Files.Request.rename name (FileNames.ofKey key)) outcome

/-- Holds the lock of a key while a program runs. -/
def locked {α : Type} (f : FileStore) (key : String) (p : Program files α) : Program files α :=
  .ask (Files.Request.lock (f.stripe key)) fun _ =>
    p.bind fun a => .ask (Files.Request.unlock (f.stripe key)) fun _ => .done a

/-- The keys that a scan is about, in the order of the listing. -/
def qualifying (start : String) (after : Option String) (names : List Bytes) : List String :=
  (names.filterMap FileNames.key?).filter fun k => startsWith start k && isAfter after k

def scan (start : String) (after : Option String) (limit : Nat) :
    Program files (Except Error (List String)) :=
  if limit = 0 then .done (.ok [])
  else
    (Program.request (I := files) .list).bind fun
      | .error e => .done (.error (.file e))
      | .ok names =>
        if hasRoom limit then .done (.ok (Smallest.select limit (qualifying start after names)))
        else .abandon

def compareAndPut (f : FileStore) (key : String) (expected value : Bytes) :
    Program files (Except Error Bool) :=
  (read key).onSuccess fun current =>
    if current = some expected then (f.write key [value]).onSuccess fun () => .done (.ok true)
    else .done (.ok false)

def delete (key : String) : Program files (Except Error Bool) :=
  (Program.request (I := files) (.unlink (FileNames.ofKey key))).bind fun
    | .ok () => .done (.ok true)
    | .error .notFound => .done (.ok false)
    | .error e => .done (.error (.file e))

/-- What the process does in the directory for each call. -/
def perform (f : FileStore) : (c : Call) → Program files (Reply c)
  | .scan start after limit => scan start after limit
  | .get key => read key
  | .put key value => f.locked key (f.write key [value])
  | .compareAndPut key expected value => f.locked key (f.compareAndPut key expected value)
  | .delete key => f.locked key (delete key)

/-- A call by the only process at work; none when the process does not survive it. -/
def answer? (f : FileStore) (order : List Bytes → List Bytes) (c : Call) (s : Opened) :
    Option (Reply c) × Opened :=
  (f.perform c).run (Files.answer order) s

/-- Opens a directory, making it if need be; serial numbers start at zero. -/
def «open» (d : Directory) : Opened := ⟨{ d with present := true }, 0⟩

end FileStore

end Upkeep.Store
