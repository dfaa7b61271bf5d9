import Upkeep.Program
import Upkeep.Store.Basic
import Upkeep.Table

/-!
One directory of a file system, and the steps that can be taken in it. Each step is atomic; a
renamed file replaces the one of its new name. The empty name stands for the directory itself.
The serial number belongs to the process that opened the directory, not to the directory.
-/

namespace Upkeep.Store

inductive Entry where
  | file (content : Bytes)
  | directory
  deriving DecidableEq, Repr

/-- What is on the disk: whether the directory is there, and its entries by name. -/
structure Directory where
  present : Bool
  entries : Table Bytes Entry

/-- A directory as one process uses it. -/
structure Opened where
  disk : Directory
  serial : UInt32

namespace Files

inductive Request where
  | list
  | read (name : Bytes)
  /-- Makes an empty file, or empties the one that is there. -/
  | create (name : Bytes)
  | append (name part : Bytes)
  | rename (source target : Bytes)
  | unlink (name : Bytes)
  /-- The next serial number; it starts again after `2 ^ 32`. -/
  | serial
  | lock (stripe : Nat)
  | unlock (stripe : Nat)

def Request.Reply : Request → Type
  | .list => Except FileFault (List Bytes)
  | .read _ => Except FileFault Bytes
  | .create _ | .append .. | .rename .. | .unlink _ => Except FileFault Unit
  | .serial => Nat
  | .lock _ | .unlock _ => Unit

end Files

/-- The vocabulary of steps in a directory. -/
def files : Interface := ⟨Files.Request, Files.Request.Reply⟩

namespace Files

/-- The most octets a name may have. -/
def maxName : Nat := 255

/-- Finds what a name stands for, as every step does first. -/
def resolve (d : Directory) (name : Bytes) : Except FileFault (Option Entry) :=
  if !d.present then .error .notFound
  else if name.isEmpty then .ok (some .directory)
  else if maxName < name.length then .error .nameTooLong
  else .ok (d.entries.get? name)

def Directory.set (d : Directory) (name : Bytes) (e : Entry) : Directory :=
  { d with entries := d.entries.insert name e }

def Directory.remove (d : Directory) (name : Bytes) : Directory :=
  { d with entries := d.entries.erase name }

def read (d : Directory) (name : Bytes) : Except FileFault Bytes :=
  match resolve d name with
  | .error e => .error e
  | .ok none => .error .notFound
  | .ok (some .directory) => .error .isDirectory
  | .ok (some (.file content)) => .ok content

def create (d : Directory) (name : Bytes) : Except FileFault Directory :=
  match resolve d name with
  | .error e => .error e
  | .ok (some .directory) => .error .isDirectory
  | .ok _ => .ok (Directory.set d name (.file []))

def append (d : Directory) (name part : Bytes) : Except FileFault Directory :=
  match resolve d name with
  | .error e => .error e
  | .ok (some .directory) => .error .isDirectory
  | .ok none => .ok d
  | .ok (some (.file content)) => .ok (Directory.set d name (.file (content ++ part)))

def rename (d : Directory) (source target : Bytes) : Except FileFault Directory :=
  match resolve d source, resolve d target with
  | .error e, _ => .error e
  | _, .error e => .error e
  | .ok none, _ => .error .notFound
  | .ok (some .directory), _ => .error .isDirectory
  | _, .ok (some .directory) => .error .isDirectory
  | .ok (some e), _ => .ok (Directory.set (Directory.remove d source) target e)

def unlink (d : Directory) (name : Bytes) : Except FileFault Directory :=
  match resolve d name with
  | .error e => .error e
  | .ok none => .error .notFound
  | .ok (some .directory) => .error .isDirectory
  | .ok (some (.file _)) => .ok (Directory.remove d name)

/-- Takes a step's new state, or keeps the old one when it failed. -/
def settle (s : Opened) : Except FileFault Directory → Except FileFault Unit × Opened
  | .ok d => (.ok (), { s with disk := d })
  | .error e => (.error e, s)

/-- One process alone in a directory. A listing gives every entry once, in the order `order` puts. -/
def answer (order : List Bytes → List Bytes) : Program.Answers files Opened
  | .list, s => (if s.disk.present then .ok (order s.disk.entries.keys) else .error .notFound, s)
  | .read name, s => (read s.disk name, s)
  | .create name, s => settle s (create s.disk name)
  | .append name part, s => settle s (append s.disk name part)
  | .rename source target, s => settle s (rename s.disk source target)
  | .unlink name, s => settle s (unlink s.disk name)
  | .serial, s => (s.serial.toNat, { s with serial := s.serial + 1 })
  | .lock _, s => ((), s)
  | .unlock _, s => ((), s)

end Files

end Upkeep.Store
