import Upkeep.Proofs.Store.Backends
import Upkeep.Proofs.Store.Memory

/-!
Calls on one store in a directory side by side. Any number of clients make calls of single keys, one
step at a time and in any order; a client that asks for a lock that another holds does not get on. A
client stands at one of a few stages, and a turn changes only keys whose lock the client holds.
-/

namespace Upkeep.Store

open Files FileNames

def Call.IsSingle : Call → Prop
  | .scan .. => False
  | .get key | .put key _ | .compareAndPut key .. | .delete key => FitsName key

namespace FileStore

structure Client where
  call : Call
  /-- What it has still to do. -/
  rest : Program files (Reply call)

inductive Mark where
  | began (client : Nat)
  | answered (client : Nat)
  deriving DecidableEq

structure Scene where
  opened : Opened
  /-- The client that holds the lock of a stripe. -/
  owner : Nat → Option Nat
  clients : List Client
  log : List Mark

inductive Move where
  | start (call : Call)
  | turn (client : Nat)

namespace Scene

def quiet (s : Opened) : Scene := ⟨s, fun _ => none, [], []⟩

/-- Takes a client's step, if nobody holds a lock that the step is to take. Nothing is listed. -/
def step (client : Nat) : (r : Request) → Opened → (Nat → Option Nat) →
    Option (r.Reply × Opened × (Nat → Option Nat))
  | .lock stripe, o, owner =>
    if owner stripe = none then some ((), o, Function.update owner stripe (some client)) else none
  | .unlock stripe, o, owner => some ((), o, Function.update owner stripe none)
  | r, o, owner => some ((answer id r o).1, (answer id r o).2, owner)

def answered {α : Type} (client : Nat) : Program files α → List Mark
  | .done _ => [.answered client]
  | _ => []

def turn (s : Scene) (client : Nat) : Scene :=
  match s.clients[client]? with
  | some ⟨call, .ask r next⟩ =>
    match step client r s.opened s.owner with
    | some (x, o, owner) =>
      ⟨o, owner, s.clients.set client ⟨call, next x⟩, s.log ++ answered client (next x)⟩
    | none => s
  | _ => s

def move (f : FileStore) (s : Scene) : Move → Scene
  | .start call =>
    { s with
      clients := s.clients ++ [⟨call, f.perform call⟩]
      log := s.log ++ [.began s.clients.length] }
  | .turn client => s.turn client

def play (f : FileStore) (moves : List Move) (s : Scene) : Scene := moves.foldl (move f) s

end Scene

def leave (f : FileStore) (key : String) {α : Type} (a : α) : Program files α :=
  .ask (Request.unlock (f.stripe key)) fun _ => .done a

theorem locked_eq {α : Type} (f : FileStore) (key : String) (p : Program files α) :
    f.locked key p = .ask (Request.lock (f.stripe key)) fun _ => p.bind (f.leave key) := rfl

def afterWrite : Except Error Unit → Program files (Except Error Bool)
  | .ok () => .done (.ok true)
  | .error e => .done (.error e)

def afterRead (f : FileStore) (key : String) (expected value : Bytes) :
    Except Error (Option Bytes) → Program files (Except Error Bool)
  | .ok current =>
    if current = some expected then (f.write key [value]).bind afterWrite else .done (.ok false)
  | .error e => .done (.error e)

theorem compareAndPut_eq (f : FileStore) (key : String) (expected value : Bytes) :
    f.compareAndPut key expected value =
      .ask (Request.read (ofKey key)) fun x => f.afterRead key expected value (found x) := by
  have hwrite : (f.write key [value]).onSuccess (fun () => .done (.ok true)) =
      (f.write key [value]).bind afterWrite :=
    congrArg (Program.bind _) (funext fun y => by cases y <;> rfl)
  rw [compareAndPut, read_eq, hwrite]
  refine congrArg (Program.ask (I := files) (Request.read _)) (funext fun x => ?_)
  rcases x with (_ | _ | _ | _ | _) | _ <;> rfl

/-- What calls do under the lock of their key. -/
inductive Guarded (f : FileStore) : (c : Call) → String → Program files (Reply c) → Prop
  | put {key : String} (hkey : FitsName key) (value : Bytes) :
      Guarded f (.put key value) key (f.write key [value])
  | compareAndPut {key : String} (hkey : FitsName key) (expected value : Bytes) :
      Guarded f (.compareAndPut key expected value) key (f.compareAndPut key expected value)
  | delete {key : String} (hkey : FitsName key) : Guarded f (.delete key) key (delete key)

/-- A call that is to write a value under a key, whatever becomes of other keys, and then goes on with
`next` and leaves with the reply `x`. -/
structure Writes (f : FileStore) (m : Memory) (c : Call) (key : String) (value : Bytes)
    (next : Except Error Unit → Program files (Reply c)) (x : Reply c) : Prop where
  fits : FitsName key
  answer_eq : ∀ m' : Memory, m'.get? key = m.get? key →
    Memory.answer c m' = (x, Table.insert m' key value)
  next_eq : next (.ok ()) = f.leave key x

def temp (f : FileStore) (key : String) (serial : UInt32) : Bytes :=
  temporary key f.process.toNat serial.toNat

/-- Where a client stands: the call that it makes and what it has still to do, the stripe whose lock
it holds, and the reply that is settled by now. -/
inductive Stands (f : FileStore) (d : Directory) (m : Memory) :
    (c : Call) → Program files (Reply c) → Option Nat → Option (Reply c) → Prop
  | reading {key : String} (hkey : FitsName key) : Stands f d m (.get key) (read key) none none
  | waiting {c : Call} {key : String} {p : Program files (Reply c)} (h : Guarded f c key p) :
      Stands f d m c (f.locked key p) none none
  | comparing {key : String} (hkey : FitsName key) (expected value : Bytes) :
      Stands f d m (.compareAndPut key expected value)
        ((f.compareAndPut key expected value).bind (f.leave key)) (some (f.stripe key)) none
  | deleting {key : String} (hkey : FitsName key) :
      Stands f d m (.delete key) ((delete key).bind (f.leave key)) (some (f.stripe key)) none
  | numbering {c : Call} {key : String} {value : Bytes}
      {next : Except Error Unit → Program files (Reply c)} {x : Reply c}
      (h : Writes f m c key value next x) :
      Stands f d m c ((f.write key [value]).bind next) (some (f.stripe key)) none
  | creating {c : Call} {key : String} {value : Bytes}
      {next : Except Error Unit → Program files (Reply c)} {x : Reply c}
      (h : Writes f m c key value next x) (serial : UInt32) :
      Stands f d m c ((writeTo (f.temp key serial) key value).bind next)
        (some (f.stripe key)) none
  | appending {c : Call} {key : String} {value : Bytes}
      {next : Except Error Unit → Program files (Reply c)} {x : Reply c}
      (h : Writes f m c key value next x) {serial : UInt32}
      (hfile : d.entries.get? (f.temp key serial) = some (.file [])) :
      Stands f d m c ((afterCreate (f.temp key serial) key value (.ok ())).bind next)
        (some (f.stripe key)) none
  | replacing {c : Call} {key : String} {value : Bytes}
      {next : Except Error Unit → Program files (Reply c)} {x : Reply c}
      (h : Writes f m c key value next x) {serial : UInt32}
      (hfile : d.entries.get? (f.temp key serial) = some (.file value)) :
      Stands f d m c ((afterAppend (f.temp key serial) key (.ok ())).bind next)
        (some (f.stripe key)) none
  | leaving {c : Call} (key : String) (x : Reply c) :
      Stands f d m c (f.leave key x) (some (f.stripe key)) (some x)
  | finished {c : Call} (x : Reply c) : Stands f d m c (.done x) none (some x)

variable {f : FileStore}

theorem Writes.frame {m m' : Memory} {c : Call} {key : String} {value : Bytes}
    {next : Except Error Unit → Program files (Reply c)} {x : Reply c}
    (h : Writes f m c key value next x) (hsame : m'.get? key = m.get? key) :
    Writes f m' c key value next x :=
  ⟨h.fits, fun m'' hsame' => h.answer_eq m'' (hsame'.trans hsame), h.next_eq⟩

theorem Writes.put (m : Memory) {key : String} (hkey : FitsName key) (value : Bytes) :
    Writes f m (.put key value) key value (f.leave key) (.ok ()) :=
  ⟨hkey, fun _ _ => rfl, rfl⟩

theorem Writes.compareAndPut {m : Memory} {key : String} (hkey : FitsName key) {expected : Bytes}
    (hheld : m.get? key = some expected) (value : Bytes)
    {next : Except Error Unit → Program files (Reply (.compareAndPut key expected value))}
    (hnext : next (.ok ()) = f.leave key (.ok true)) :
    Writes f m (.compareAndPut key expected value) key value next (.ok true) :=
  ⟨hkey, fun _ hsame => Memory.answer_compareAndPut (hsame.trans hheld) value, hnext⟩

/-- Between two states nothing has changed but what the holder of a lock may change. -/
def Covers (f : FileStore) (lock : Option Nat) (s : Opened) (m : Memory) (s' : Opened)
    (m' : Memory) : Prop :=
  ∀ key, lock ≠ some (f.stripe key) → m'.get? key = m.get? key ∧
    ∀ serial, s'.disk.entries.get? (f.temp key serial) = s.disk.entries.get? (f.temp key serial)

theorem Stands.frame {d d' : Directory} {m m' : Memory} {c : Call} {p : Program files (Reply c)}
    {lock : Option Nat} {settled : Option (Reply c)} (h : Stands f d m c p lock settled)
    (hsame : ∀ key, lock = some (f.stripe key) → m'.get? key = m.get? key ∧
      ∀ serial, d'.entries.get? (f.temp key serial) = d.entries.get? (f.temp key serial)) :
    Stands f d' m' c p lock settled := by
  cases h with
  | reading hkey => exact .reading hkey
  | waiting h => exact .waiting h
  | comparing hkey => exact .comparing hkey ..
  | deleting hkey => exact .deleting hkey
  | numbering h => exact .numbering (h.frame (hsame _ rfl).1)
  | creating h serial => exact .creating (h.frame (hsame _ rfl).1) serial
  | appending h hfile =>
      exact .appending (h.frame (hsame _ rfl).1) (((hsame _ rfl).2 _).trans hfile)
  | replacing h hfile =>
      exact .replacing (h.frame (hsame _ rfl).1) (((hsame _ rfl).2 _).trans hfile)
  | leaving key x => exact .leaving key x
  | finished x => exact .finished x

theorem Stands.perform (d : Directory) (m : Memory) {c : Call} (hc : c.IsSingle) :
    Stands f d m c (f.perform c) none none := by
  cases c with
  | scan => exact hc.elim
  | get key => exact .reading hc
  | put key value => exact .waiting (.put hc value)
  | compareAndPut key expected value => exact .waiting (.compareAndPut hc expected value)
  | delete key => exact .waiting (.delete hc)

theorem perform_ne_done {c : Call} (hc : c.IsSingle) (x : Reply c) : f.perform c ≠ .done x := by
  cases c with
  | scan => exact hc.elim
  | get | put | compareAndPut | delete => exact nofun

theorem Scene.step_of_answer {r : Request} (hlock : ∀ stripe, r ≠ .lock stripe)
    (hunlock : ∀ stripe, r ≠ .unlock stripe) {s s' : Opened} {x : r.Reply}
    (hanswer : answer id r s = (x, s')) (client : Nat) (owner : Nat → Option Nat) :
    Scene.step client r s owner = some (x, s', owner) := by
  unfold Scene.step
  split
  next => exact absurd rfl (hlock _)
  next => exact absurd rfl (hunlock _)
  next => rw [hanswer]

/-- What the next step of a client comes to: it takes or gives back a lock, or it gets on with its
call, and then the call is settled or is not. -/
inductive Turned (f : FileStore) (s : Opened) (m : Memory) (c : Call) :
    (r : Request) → (r.Reply → Program files (Reply c)) → Option Nat → Option (Reply c) → Prop
  | locks {key : String} {next : Unit → Program files (Reply c)}
      (h : Stands f s.disk m c (next ()) (some (f.stripe key)) none) :
      Turned f s m c (.lock (f.stripe key)) next none none
  | unlocks (key : String) (x : Reply c) :
      Turned f s m c (.unlock (f.stripe key)) (fun _ => .done x) (some (f.stripe key)) (some x)
  | moves {r : Request} {next : r.Reply → Program files (Reply c)} {lock : Option Nat} {x : r.Reply}
      {s' : Opened} (hstep : ∀ client owner, Scene.step client r s owner = some (x, s', owner))
      (hs' : Mirrors s' m) (hcovers : Covers f lock s m s' m)
      (h : Stands f s'.disk m c (next x) lock none) : Turned f s m c r next lock none
  | settles {r : Request} {next : r.Reply → Program files (Reply c)} {lock : Option Nat}
      {x : r.Reply} {s' : Opened}
      (hstep : ∀ client owner, Scene.step client r s owner = some (x, s', owner))
      (hs' : Mirrors s' (Memory.answer c m).2) (hcovers : Covers f lock s m s' (Memory.answer c m).2)
      (h : Stands f s'.disk (Memory.answer c m).2 c (next x) lock (some (Memory.answer c m).1)) :
      Turned f s m c r next lock none

section Turns

variable {s s' : Opened} {m m' : Memory} {c : Call} {key : String}

theorem Covers.refl (f : FileStore) (lock : Option Nat) (s : Opened) (m : Memory) :
    Covers f lock s m s m := fun _ _ => ⟨rfl, fun _ => rfl⟩

/-- The holder of the lock of a key may change what the key holds, and its temporary files. -/
theorem Covers.of_key (hm : ∀ key' ≠ key, m'.get? key' = m.get? key')
    (hd : ∀ name, (∀ serial, name ≠ f.temp key serial) → isTemporary name = true →
      s'.disk.entries.get? name = s.disk.entries.get? name) :
    Covers f (some (f.stripe key)) s m s' m' := fun key' hlock => by
  have hkey : key' ≠ key := fun e => hlock (e ▸ rfl)
  refine ⟨hm key' hkey, fun serial => hd _ (fun serial' e => hkey ?_) (isTemporary_temporary ..)⟩
  exact (temporary_eq_iff.mp e).1

theorem Covers.set_temporary (serial : UInt32) (content : Bytes) :
    Covers f (some (f.stripe key)) s m
      { s with disk := Directory.set s.disk (f.temp key serial) (.file content) } m :=
  .of_key (fun _ _ => rfl) fun _ hname _ => Table.get?_insert_of_ne _ _ (hname serial)

variable (hs : Mirrors s m)

include hs

theorem Turned.reading (hkey : FitsName key) :
    Turned f s m (.get key) (.read (ofKey key)) (fun x => .done (found x)) none none := by
  have hstep := Scene.step_of_answer (r := .read (ofKey key)) (s := s) (fun _ => nofun)
    (fun _ => nofun) rfl
  refine .settles hstep hs (Covers.refl f none s m) ?_
  rw [hs.shows.found_read (isName_ofKey hkey)]
  exact .finished _

theorem Turned.numbering {value : Bytes} {next : Except Error Unit → Program files (Reply c)}
    {x : Reply c} (h : Writes f m c key value next x) :
    Turned f s m c .serial
      (fun serial => (writeTo (temporary key f.process.toNat serial) key value).bind next)
      (some (f.stripe key)) none := by
  have hstep := Scene.step_of_answer (r := .serial) (s := s) (fun _ => nofun) (fun _ => nofun) rfl
  refine .moves hstep (hs.of_disk_eq rfl)
    (fun _ _ => ⟨rfl, fun _ => rfl⟩) ?_
  exact .creating h s.serial

theorem Turned.creating {value : Bytes} {next : Except Error Unit → Program files (Reply c)}
    {x : Reply c} (h : Writes f m c key value next x) (serial : UInt32) :
    Turned f s m c (.create (f.temp key serial))
      (fun y => (afterCreate (f.temp key serial) key value y).bind next)
      (some (f.stripe key)) none := by
  have hname := isName_temporary h.fits f.process serial
  have hstep := Scene.step_of_answer (r := .create (f.temp key serial)) (fun _ => nofun)
    (fun _ => nofun) (hs.answer_create id hname)
  refine .moves hstep (hs.set_temporary (isTemporary_temporary ..) [])
    (Covers.set_temporary serial []) ?_
  exact .appending h (Table.get?_insert_self ..)

theorem Turned.appending {value : Bytes} {next : Except Error Unit → Program files (Reply c)}
    {x : Reply c} (h : Writes f m c key value next x) {serial : UInt32}
    (hfile : s.disk.entries.get? (f.temp key serial) = some (.file [])) :
    Turned f s m c (.append (f.temp key serial) value)
      (fun y => (afterAppend (f.temp key serial) key y).bind next) (some (f.stripe key)) none := by
  have hname := isName_temporary h.fits f.process serial
  have hstep := Scene.step_of_answer (r := .append (f.temp key serial) value) (fun _ => nofun)
    (fun _ => nofun) (hs.answer_append id hname hfile value)
  refine .moves hstep (hs.set_temporary (isTemporary_temporary ..) value)
    (Covers.set_temporary serial value) ?_
  exact .replacing h (Table.get?_insert_self ..)

theorem Turned.replacing {value : Bytes} {next : Except Error Unit → Program files (Reply c)}
    {x : Reply c} (h : Writes f m c key value next x) {serial : UInt32}
    (hfile : s.disk.entries.get? (f.temp key serial) = some (.file value)) :
    Turned f s m c (.rename (f.temp key serial) (ofKey key)) (fun y => (outcome y).bind next)
      (some (f.stripe key)) none := by
  have hname := isName_temporary h.fits f.process serial
  have htemp := isTemporary_temporary key f.process.toNat serial.toNat
  have hanswer : Memory.answer c m = (x, Table.insert m key value) := h.answer_eq m rfl
  have hstep := Scene.step_of_answer (r := .rename (f.temp key serial) (ofKey key))
    (fun _ => nofun) (fun _ => nofun) (hs.answer_rename id hname (isName_ofKey h.fits) hfile)
  refine .settles hstep ?_ ?_ ?_
  · rw [hanswer]
    exact (hs.remove_temporary htemp).set_file key value
  · rw [hanswer]
    refine .of_key (fun _ hkey => Table.get?_insert_of_ne _ _ hkey) fun name hname htemporary => ?_
    refine (Table.get?_insert_of_ne _ _ (ofKey_ne_of_isTemporary htemporary key).symm).trans ?_
    exact Table.get?_erase_of_ne _ (hname serial)
  · rw [hanswer]
    change Stands f _ _ c (next (.ok ())) _ _
    rw [h.next_eq]
    exact .leaving key x

theorem Turned.comparing (hkey : FitsName key) (expected value : Bytes) :
    Turned f s m (.compareAndPut key expected value) (.read (ofKey key))
      (fun x => (f.afterRead key expected value (found x)).bind (f.leave key))
      (some (f.stripe key)) none := by
  have hstep := Scene.step_of_answer (r := .read (ofKey key)) (s := s) (fun _ => nofun)
    (fun _ => nofun) rfl
  by_cases hheld : m.get? key = some expected
  · have hrest : (f.afterRead key expected value (found (Files.read s.disk (ofKey key)))).bind
        (f.leave key) = (f.write key [value]).bind fun y => (afterWrite y).bind (f.leave key) := by
      rw [hs.shows.found_read (isName_ofKey hkey), afterRead, if_pos hheld]
      exact Program.bind_assoc _ _ _
    refine .moves hstep hs (Covers.refl f _ s m) ?_
    refine (congrArg (Stands f s.disk m (.compareAndPut key expected value) · _ _) hrest).mpr ?_
    exact .numbering (.compareAndPut hkey hheld value rfl)
  · have hanswer : Memory.answer (.compareAndPut key expected value) m = (.ok false, m) := by
      rw [Memory.answer, Memory.compareAndPut, if_neg hheld]
    refine .settles hstep ?_ ?_ ?_
    · rw [hanswer]
      exact hs
    · rw [hanswer]
      exact Covers.refl f _ s m
    · rw [hanswer, hs.shows.found_read (isName_ofKey hkey), afterRead, if_neg hheld]
      exact .leaving key _

theorem Turned.deleting (hkey : FitsName key) :
    Turned f s m (.delete key) (.unlink (ofKey key)) (fun x => f.leave key (removed x))
      (some (f.stripe key)) none := by
  obtain ⟨x, s', hunlink, hx, hs', hsame⟩ := hs.answer_unlink id hkey
  have hstep := Scene.step_of_answer (r := .unlink (ofKey key)) (fun _ => nofun) (fun _ => nofun)
    hunlink
  refine .settles hstep hs' ?_ ?_
  · refine .of_key (fun _ hkey => Table.get?_erase_of_ne _ hkey) fun name _ htemporary => ?_
    exact hsame name (ofKey_ne_of_isTemporary htemporary key).symm
  · rw [hx]
    exact .leaving key _

/-- A client that has nothing more to do holds no lock and has its reply; any other has a next step. -/
theorem Stands.turned {p : Program files (Reply c)} {lock : Option Nat} {settled : Option (Reply c)}
    (h : Stands f s.disk m c p lock settled) :
    (∃ x, p = .done x ∧ lock = none ∧ settled = some x) ∨
      ∃ r next, p = .ask r next ∧ Turned f s m c r next lock settled := by
  cases h with
  | reading hkey => exact .inr ⟨_, _, read_eq _, Turned.reading hs hkey⟩
  | waiting h =>
      refine .inr ⟨_, _, locked_eq .., .locks ?_⟩
      cases h with
      | put hkey value => exact .numbering (.put m hkey value)
      | compareAndPut hkey expected value => exact .comparing hkey expected value
      | delete hkey => exact .deleting hkey
  | comparing hkey expected value =>
      refine .inr ⟨_, _, ?_, Turned.comparing hs hkey expected value⟩
      rw [compareAndPut_eq]
      rfl
  | deleting hkey =>
      refine .inr ⟨_, _, ?_, Turned.deleting hs hkey⟩
      rw [delete_eq]
      rfl
  | numbering h =>
      refine .inr ⟨_, _, ?_, Turned.numbering hs h⟩
      rw [write_eq]
      rfl
  | creating h serial => exact .inr ⟨_, _, rfl, Turned.creating hs h serial⟩
  | appending h hfile => exact .inr ⟨_, _, rfl, Turned.appending hs h hfile⟩
  | replacing h hfile => exact .inr ⟨_, _, rfl, Turned.replacing hs h hfile⟩
  | leaving key x => exact .inr ⟨_, _, rfl, .unlocks key x⟩
  | finished x => exact .inl ⟨x, rfl, rfl, rfl⟩

end Turns

/-- Nobody is in the way of a client that holds a lock. -/
theorem Turned.isSome_step {s : Opened} {m : Memory} {c : Call} {r : Request}
    {next : r.Reply → Program files (Reply c)} {stripe : Nat} {settled : Option (Reply c)}
    (h : Turned f s m c r next (some stripe) settled) (client : Nat) (owner : Nat → Option Nat) :
    (Scene.step client r s owner).isSome := by
  cases h with
  | unlocks => rfl
  | moves hstep => rw [hstep]; rfl
  | settles hstep => rw [hstep]; rfl

end FileStore

end Upkeep.Store
