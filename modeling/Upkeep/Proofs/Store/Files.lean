import Upkeep.Proofs.Store.FileNames
import Upkeep.Proofs.Table
import Upkeep.Store.FileStore

/-!
What one process alone does in a directory. Each step has an equation for the entries that it finds.
What is done with a key is taken apart into steps: reading and deleting are one each, and for a write
a temporary file is made, filled and renamed away.
-/

namespace Upkeep

theorem Program.run_ask_of_answer {I : Interface} {α σ : Type} {answer : Answers I σ} {r : I.Request}
    {x : I.Reply r} {s s' : σ} (h : answer r s = (x, s')) (next : I.Reply r → Program I α) :
    (ask r next).run answer s = (next x).run answer s' := by
  rw [run_ask, h]

/-- A program goes on with the reply to its request. -/
theorem Program.run_request_bind {I : Interface} {α σ : Type} (answer : Answers I σ) (r : I.Request)
    {x : I.Reply r} {s s' : σ} (h : answer r s = (x, s')) (f : I.Reply r → Program I α) :
    ((request r).bind f).run answer s = (f x).run answer s' := by
  rw [request, bind_ask, run_ask, h, bind_done]

namespace Store

namespace Files

def IsName (name : Bytes) : Prop := name ≠ [] ∧ name.length ≤ maxName

section Steps

variable {d : Directory} (hd : d.present = true)

include hd

theorem resolve_eq {name : Bytes} (h : IsName name) : resolve d name = .ok (d.entries.get? name) := by
  have hempty : name.isEmpty = false := by
    cases name with
    | nil => exact absurd rfl h.1
    | cons b r => rfl
  rw [resolve, hd, Bool.not_true, if_neg Bool.false_ne_true, hempty, if_neg Bool.false_ne_true,
    if_neg (Nat.not_lt.mpr h.2)]

/-- No step gets past a name that is too long. -/
theorem resolve_long {name : Bytes} (h : maxName < name.length) :
    resolve d name = .error .nameTooLong := by
  have hempty : name.isEmpty = false := by
    cases name with
    | nil => exact absurd h (Nat.not_lt_zero _)
    | cons b r => rfl
  rw [resolve, hd, Bool.not_true, if_neg Bool.false_ne_true, hempty, if_neg Bool.false_ne_true,
    if_pos h]

theorem read_file {name content : Bytes} (h : IsName name)
    (he : d.entries.get? name = some (.file content)) : read d name = .ok content := by
  rw [read, resolve_eq hd h, he]

/-- Whatever can be read is a file, and its name one that a file may have. -/
theorem of_read {name content : Bytes} (h : read d name = .ok content) :
    IsName name ∧ d.entries.get? name = some (.file content) := by
  cases name with
  | nil =>
      rw [read, resolve, hd] at h
      cases h
  | cons b r =>
      by_cases hlong : maxName < (b :: r).length
      · rw [read, resolve_long hd hlong] at h
        cases h
      · have hname : IsName (b :: r) := ⟨List.cons_ne_nil b r, Nat.not_lt.mp hlong⟩
        rw [read, resolve_eq hd hname] at h
        cases hentry : d.entries.get? (b :: r) with
        | none =>
            rw [hentry] at h
            cases h
        | some e =>
            rw [hentry] at h
            cases e with
            | directory => cases h
            | file content' =>
                cases h
                exact ⟨hname, rfl⟩

theorem read_none {name : Bytes} (h : IsName name) (he : d.entries.get? name = none) :
    read d name = .error .notFound := by
  rw [read, resolve_eq hd h, he]

/-- A file is made, or the one that is there is emptied. -/
theorem create_eq {name : Bytes} (h : IsName name) (he : d.entries.get? name ≠ some .directory) :
    create d name = .ok (Directory.set d name (.file [])) := by
  rw [create, resolve_eq hd h]
  cases hentry : d.entries.get? name with
  | none => rfl
  | some e =>
      cases e with
      | file content => rfl
      | directory => exact absurd hentry he

/-- Only a name that a file may have is one that a file is made of. -/
theorem of_create {d' : Directory} {name : Bytes} (hne : name ≠ []) (h : create d name = .ok d') :
    IsName name ∧ d.entries.get? name ≠ some .directory := by
  by_cases hlong : maxName < name.length
  · rw [create, resolve_long hd hlong] at h
    cases h
  · have hname : IsName name := ⟨hne, Nat.not_lt.mp hlong⟩
    refine ⟨hname, fun hdirectory => ?_⟩
    rw [create, resolve_eq hd hname, hdirectory] at h
    cases h

theorem append_file {name content : Bytes} (h : IsName name)
    (he : d.entries.get? name = some (.file content)) (part : Bytes) :
    append d name part = .ok (Directory.set d name (.file (content ++ part))) := by
  rw [append, resolve_eq hd h, he]

theorem rename_file {source target content : Bytes} (hs : IsName source) (ht : IsName target)
    (hse : d.entries.get? source = some (.file content))
    (hte : d.entries.get? target ≠ some .directory) :
    rename d source target = .ok (Directory.set (Directory.remove d source) target (.file content)) := by
  rw [rename, resolve_eq hd hs, resolve_eq hd ht, hse]
  cases he : d.entries.get? target with
  | none => rfl
  | some e =>
      cases e with
      | file content => rfl
      | directory => exact absurd he hte

theorem unlink_file {name content : Bytes} (h : IsName name)
    (he : d.entries.get? name = some (.file content)) :
    unlink d name = .ok (Directory.remove d name) := by
  rw [unlink, resolve_eq hd h, he]

theorem unlink_none {name : Bytes} (h : IsName name) (he : d.entries.get? name = none) :
    unlink d name = .error .notFound := by
  rw [unlink, resolve_eq hd h, he]

end Steps

section Answers

variable (order : List Bytes → List Bytes) {s : Opened} (hs : s.disk.present = true)

include hs

theorem answer_list : answer order .list s = (.ok (order s.disk.entries.keys), s) := by
  change ((if s.disk.present then _ else _ : Except FileFault (List Bytes)), s) = _
  rw [hs]
  rfl

theorem answer_create {name : Bytes} (h : IsName name)
    (he : s.disk.entries.get? name ≠ some .directory) :
    answer order (.create name) s = (.ok (), { s with disk := Directory.set s.disk name (.file []) }) :=
  congrArg (settle s) (create_eq hs h he)

theorem answer_append {name content : Bytes} (h : IsName name)
    (he : s.disk.entries.get? name = some (.file content)) (part : Bytes) :
    answer order (.append name part) s =
      (.ok (), { s with disk := Directory.set s.disk name (.file (content ++ part)) }) :=
  congrArg (settle s) (append_file hs h he part)

theorem answer_rename {source target content : Bytes} (hsource : IsName source)
    (htarget : IsName target) (he : s.disk.entries.get? source = some (.file content))
    (hfree : s.disk.entries.get? target ≠ some .directory) :
    answer order (.rename source target) s = (.ok (), { s with
      disk := Directory.set (Directory.remove s.disk source) target (.file content) }) :=
  congrArg (settle s) (rename_file hs hsource htarget he hfree)

end Answers

end Files

namespace FileStore

open Files FileNames

variable (order : List Bytes → List Bytes)

def afterAppend (temp : Bytes) (key : String) :
    Except FileFault Unit → Program files (Except Error Unit)
  | .ok () => .ask (Request.rename temp (ofKey key)) outcome
  | .error e => .done (.error (.file e))

def afterCreate (temp : Bytes) (key : String) (value : Bytes) :
    Except FileFault Unit → Program files (Except Error Unit)
  | .ok () => .ask (Request.append temp value) (afterAppend temp key)
  | .error e => .done (.error (.file e))

def writeTo (temp : Bytes) (key : String) (value : Bytes) : Program files (Except Error Unit) :=
  .ask (Request.create temp) (afterCreate temp key value)

theorem write_eq (f : FileStore) (key : String) (value : Bytes) :
    f.write key [value] = .ask Request.serial fun serial =>
      writeTo (temporary key f.process.toNat serial) key value := by
  refine congrArg (Program.ask (I := files) Request.serial) (funext fun serial => ?_)
  refine congrArg (Program.ask (I := files) (Request.create _)) (funext fun x => ?_)
  cases x with
  | error e => rfl
  | ok =>
      refine congrArg (Program.ask (I := files) (Request.append _ _)) (funext fun y => ?_)
      cases y <;> rfl

/-- A key cannot be written when its temporary file cannot be made. A serial number is spent. -/
theorem run_write_refused {f : FileStore} {key : String} {s : Opened} {e : FileFault}
    (h : create s.disk (temporary key f.process.toNat s.serial.toNat) = .error e) (value : Bytes) :
    (f.write key [value]).run (answer order) s =
      (some (.error (.file e)), ⟨s.disk, s.serial + 1⟩) := by
  have hrefused : answer order (.create (temporary key f.process.toNat s.serial.toNat))
      ⟨s.disk, s.serial + 1⟩ = (.error e, ⟨s.disk, s.serial + 1⟩) :=
    congrArg (settle ⟨s.disk, s.serial + 1⟩) h
  have hwrite : (writeTo (temporary key f.process.toNat s.serial.toNat) key value).run
      (answer order) ⟨s.disk, s.serial + 1⟩ =
        (some (.error (.file e)), ⟨s.disk, s.serial + 1⟩) :=
    (Program.run_ask_of_answer hrefused _).trans rfl
  rw [write_eq]
  exact hwrite

def found : Except FileFault Bytes → Except Error (Option Bytes)
  | .ok content => .ok (some content)
  | .error .notFound => .ok none
  | .error e => .error (.file e)

theorem read_eq (key : String) :
    read key = .ask (Request.read (ofKey key)) fun x => .done (found x) := by
  refine congrArg (Program.ask (I := files) (Request.read _)) (funext fun x => ?_)
  rcases x with (_ | _ | _ | _ | _) | _ <;> rfl

theorem run_read (key : String) (s : Opened) :
    (read key).run (answer order) s = (some (found (Files.read s.disk (ofKey key))), s) := by
  rw [read_eq]
  rfl

theorem found_eq_some {x : Except FileFault Bytes} {content : Bytes}
    (h : found x = .ok (some content)) : x = .ok content := by
  rcases x with (_ | _ | _ | _ | _) | _ <;> cases h
  rfl

def removed : Except FileFault Unit → Except Error Bool
  | .ok () => .ok true
  | .error .notFound => .ok false
  | .error e => .error (.file e)

theorem delete_eq (key : String) :
    delete key = .ask (Request.unlink (ofKey key)) fun x => .done (removed x) := by
  refine congrArg (Program.ask (I := files) (Request.unlink _)) (funext fun x => ?_)
  rcases x with (_ | _ | _ | _ | _) | _ <;> rfl

/-- One process alone never waits for a lock. -/
theorem run_locked {α : Type} (f : FileStore) (key : String) (p : Program files α) (s : Opened) :
    (f.locked key p).run (answer order) s = p.run (answer order) s := by
  refine (Program.run_bind (answer order) p _ s).trans ?_
  rcases p.run (answer order) s with ⟨_ | a, s'⟩ <;> rfl

end FileStore

end Store

end Upkeep
