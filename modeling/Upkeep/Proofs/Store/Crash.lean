import Upkeep.Proofs.Store.Backends

/-!
Processes that die while they use a store in a directory. A process may die before and after each of
its steps, and of what it appends to a file any part may be there. Whatever it leaves behind, the next
process finds the directory as if the call that was under way had been made or not: only a rename or
an unlink changes what stands for a key, and a temporary file that was left is made anew before it is
used.
-/

namespace Upkeep.Store

open Files FileNames FileStore

/-- What may be on the disk when a process dies while it runs a program. -/
inductive FileStore.Crashes (order : List Bytes → List Bytes) {α : Type} :
    Program files α → Opened → Directory → Prop
  | now (p : Program files α) (s : Opened) : Crashes order p s s.disk
  | torn {name part part' : Bytes} {next : Except FileFault Unit → Program files α} {s : Opened}
      (h : part' <+: part) : Crashes order (.ask (Request.append name part) next) s
        (answer order (.append name part') s).2.disk
  | later {r : Request} {next : r.Reply → Program files α} {s : Opened} {d : Directory}
      (h : Crashes order (next (answer order r s).1) (answer order r s).2 d) :
      Crashes order (.ask r next) s d

namespace FileStore.Crashes

variable {order : List Bytes → List Bytes} {α β : Type} {s s' : Opened} {d : Directory}

theorem of_step {r : Request} {next : r.Reply → Program files α} {x : r.Reply}
    (hanswer : answer order r s = (x, s')) (h : Crashes order (next x) s' d) :
    Crashes order (.ask r next) s d :=
  .later (by rwa [hanswer])

theorem of_part {name part part' : Bytes} {next : Except FileFault Unit → Program files α}
    {x : Except FileFault Unit} (h : part' <+: part)
    (hanswer : answer order (.append name part') s = (x, s')) :
    Crashes order (.ask (Request.append name part) next) s s'.disk := by
  rw [show s' = (answer order (.append name part') s).2 by rw [hanswer]]
  exact .torn h

theorem of_done {a : α} (h : Crashes order (.done a) s d) : d = s.disk := by
  cases h
  rfl

/-- All steps but an append are taken or not. -/
theorem of_ask {r : Request} {next : r.Reply → Program files α} {x : r.Reply}
    (h : Crashes order (.ask r next) s d) (hr : ∀ name part, r ≠ .append name part)
    (hanswer : answer order r s = (x, s')) : d = s.disk ∨ Crashes order (next x) s' d := by
  cases h with
  | now => exact .inl rfl
  | torn => exact absurd rfl (hr _ _)
  | later h =>
      rw [hanswer] at h
      exact .inr h

theorem of_append {name part : Bytes} {next : Except FileFault Unit → Program files α}
    {x : Except FileFault Unit} (h : Crashes order (.ask (Request.append name part) next) s d)
    (hanswer : answer order (.append name part) s = (x, s')) :
    d = s.disk ∨ (∃ part', d = (answer order (.append name part') s).2.disk) ∨
      Crashes order (next x) s' d := by
  cases h with
  | now => exact .inl rfl
  | torn => exact .inr (.inl ⟨_, rfl⟩)
  | later h =>
      rw [hanswer] at h
      exact .inr (.inr h)

theorem of_bind {p : Program files α} {f : α → Program files β} (h : Crashes order (p.bind f) s d) :
    Crashes order p s d ∨
      ∃ a s', p.run (answer order) s = (some a, s') ∧ Crashes order (f a) s' d := by
  induction p generalizing s with
  | done a => exact .inr ⟨a, s, rfl, h⟩
  | abandon =>
      cases h
      exact .inl (.now ..)
  | ask r next ih =>
      change Crashes order (.ask r fun x => (next x).bind f) s d at h
      cases h with
      | now => exact .inl (.now ..)
      | torn h => exact .inl (.torn h)
      | later h => exact (ih _ h).imp_left .later

/-- A lock leaves nothing on the disk. -/
theorem of_locked {f : FileStore} {key : String} {p : Program files α}
    (h : Crashes order (f.locked key p) s d) :
    Crashes order p s d ∨ ∃ a s', p.run (answer order) s = (some a, s') ∧ d = s'.disk := by
  rcases of_ask (r := .lock (f.stripe key)) h (fun _ _ => nofun) rfl with rfl | h
  · exact .inl (.now ..)
  · refine (of_bind h).imp_right ?_
    rintro ⟨a, s', hrun, h⟩
    refine ⟨a, s', hrun, ?_⟩
    rcases of_ask (r := .unlock (f.stripe key)) h (fun _ _ => nofun) rfl with rfl | h
    · rfl
    · exact of_done h

theorem of_read {key : String} (h : Crashes order (read key) s d) : d = s.disk := by
  rw [read_eq] at h
  rcases of_ask (r := .read _) h (fun _ _ => nofun) rfl with rfl | h
  · rfl
  · exact of_done h

theorem of_scan {start : String} {after : Option String} {limit : Nat}
    (h : Crashes order (scan start after limit) s d) : d = s.disk := by
  unfold scan at h
  split at h
  next => exact of_done h
  next =>
    rcases of_ask (r := .list) h (fun _ _ => nofun) rfl with rfl | h
    · rfl
    · dsimp only [Program.bind_done] at h
      split at h
      next => exact of_done h
      next =>
        split at h
        next => exact of_done h
        next =>
          cases h
          rfl

end FileStore.Crashes

def Call.NamesFit : Call → Prop
  | .scan .. => True
  | .get key | .put key _ | .compareAndPut key .. | .delete key => FitsName key

namespace Mirrors

variable {s : Opened} {m : Memory} (h : Mirrors s m) {order : List Bytes → List Bytes}

theorem reopen (h : Mirrors s m) : Mirrors (FileStore.open s.disk) m where
  present := rfl
  entries_ascending := h.entries_ascending
  ascending := h.ascending
  content := h.content
  names := h.names
  not_directory := h.not_directory

/-- A program that is run under a lock and cut short is done or was cut short itself. -/
theorem crash_locked {α : Type} {f : FileStore} {key : String} {p : Program files α} {x : α}
    {m' : Memory} (hrun : ∃ s', p.run (answer order) s = (some x, s') ∧ Mirrors s' m')
    {d : Directory} (hd : Crashes order (f.locked key p) s d)
    (hcrash : Crashes order p s d → Mirrors (FileStore.open d) m ∨ Mirrors (FileStore.open d) m') :
    Mirrors (FileStore.open d) m ∨ Mirrors (FileStore.open d) m' := by
  rcases Crashes.of_locked hd with hd | ⟨x', s', hrun', rfl⟩
  · exact hcrash hd
  · obtain ⟨s'', hrun, h'⟩ := hrun
    rw [hrun] at hrun'
    cases hrun'
    exact .inr h'.reopen

include h

section Crashes

variable {d : Directory} {key : String} (hkey : FitsName key) (f : FileStore)

include hkey

theorem crash_writeTo {value temp : Bytes} (hname : IsName temp) (htemp : isTemporary temp = true)
    (hd : Crashes order (writeTo temp key value) s d) :
    Mirrors (FileStore.open d) m ∨ Mirrors (FileStore.open d) (Table.insert m key value) := by
  have h₁ := h.set_temporary htemp []
  have h₂ := h₁.set_temporary htemp value
  have hcreate := h.answer_create order hname
  have happend := h₁.answer_append order hname (Table.get?_insert_self ..)
  have hrename := h₂.answer_rename order hname (isName_ofKey hkey) (Table.get?_insert_self ..)
  rcases Crashes.of_ask hd (fun _ _ => nofun) hcreate with rfl | hd
  · exact .inl h.reopen
  rcases Crashes.of_append hd (happend value) with rfl | ⟨part, rfl⟩ | hd
  · exact .inl h₁.reopen
  · rw [happend part]
    exact .inl (h₁.set_temporary htemp _).reopen
  rcases Crashes.of_ask hd (fun _ _ => nofun) hrename with rfl | hd
  · exact .inl h₂.reopen
  · rw [Crashes.of_done hd]
    exact .inr ((h₂.remove_temporary htemp).set_file key value).reopen

theorem crash_write {value : Bytes} (hd : Crashes order (f.write key [value]) s d) :
    Mirrors (FileStore.open d) m ∨ Mirrors (FileStore.open d) (Table.insert m key value) := by
  rw [write_eq] at hd
  rcases Crashes.of_ask (r := .serial) hd (fun _ _ => nofun) rfl with rfl | hd
  · exact .inl h.reopen
  · have h' : Mirrors ⟨s.disk, s.serial + 1⟩ m := h.of_disk_eq rfl
    exact h'.crash_writeTo hkey
      (isName_temporary hkey f.process s.serial) (isTemporary_temporary key _ _) hd

theorem crash_compareAndPut {expected value : Bytes}
    (hd : Crashes order (f.compareAndPut key expected value) s d) :
    Mirrors (FileStore.open d) m ∨
      Mirrors (FileStore.open d) (Memory.compareAndPut m key expected value).2 := by
  rcases Crashes.of_bind hd with hd | ⟨x, s', hrun, hd⟩
  · rw [Crashes.of_read hd]
    exact .inl h.reopen
  · rw [h.shows.run_read order (isName_ofKey hkey)] at hrun
    cases hrun
    dsimp only at hd
    rw [Memory.compareAndPut]
    split at hd
    next hheld =>
      rw [if_pos hheld]
      rcases Crashes.of_bind hd with hd | ⟨x, s', hrun, hd⟩
      · exact h.crash_write hkey f hd
      · obtain ⟨s'', hwrite, h'⟩ := h.run_write order f hkey value
        rw [hwrite] at hrun
        cases hrun
        rw [Crashes.of_done hd]
        exact .inr h'.reopen
    next =>
      rw [Crashes.of_done hd]
      exact .inl h.reopen

theorem crash_delete (hd : Crashes order (delete key) s d) :
    Mirrors (FileStore.open d) m ∨ Mirrors (FileStore.open d) (Table.erase m key) := by
  obtain ⟨x, s', hunlink, -, h', -⟩ := h.answer_unlink order hkey
  rw [delete_eq] at hd
  rcases Crashes.of_ask hd (fun _ _ => nofun) hunlink with rfl | hd
  · exact .inl h.reopen
  · rw [Crashes.of_done hd]
    exact .inr h'.reopen

/-- A process can die with any part of what it puts in its temporary file. -/
theorem crashes_put {value part : Bytes} (hpart : part <+: value) :
    Crashes order (f.perform (.put key value)) s (Directory.set s.disk
      (temporary key f.process.toNat s.serial.toNat) (.file part)) := by
  have hname := isName_temporary hkey f.process s.serial
  have htemp := isTemporary_temporary key f.process.toNat s.serial.toNat
  have h₀ : Mirrors ⟨s.disk, s.serial + 1⟩ m := h.of_disk_eq rfl
  have hcreate := h₀.answer_create order hname
  have happend := (h₀.set_temporary htemp []).answer_append order hname
    (Table.get?_insert_self ..) part
  have hdisk : Directory.set (Directory.set s.disk (temporary key f.process.toNat s.serial.toNat)
      (.file [])) (temporary key f.process.toNat s.serial.toNat) (.file ([] ++ part)) =
      Directory.set s.disk (temporary key f.process.toNat s.serial.toNat) (.file part) :=
    congrArg (Directory.mk s.disk.present) (Table.insert_insert_self ..)
  rw [← hdisk]
  refine Crashes.of_step (r := .lock _) rfl ?_
  change Crashes order ((f.write key [value]).bind _) s _
  rw [write_eq]
  exact Crashes.of_step (r := .serial) rfl (Crashes.of_step hcreate (Crashes.of_part hpart happend))

end Crashes

section Calls

variable {c : Call} (hc : c.NamesFit) (f : FileStore)

include hc

/-- A call that is cut short was made or was not. -/
theorem crash {d : Directory} (hd : Crashes order (f.perform c) s d) :
    Mirrors (FileStore.open d) m ∨ Mirrors (FileStore.open d) (Memory.answer c m).2 := by
  cases c with
  | scan start after limit =>
      rw [Crashes.of_scan hd]
      exact .inl h.reopen
  | get key =>
      rw [Crashes.of_read hd]
      exact .inl h.reopen
  | put key value =>
      exact crash_locked (h.run_write order f hc value) hd (h.crash_write hc f)
  | compareAndPut key expected value =>
      exact crash_locked (h.run_compareAndPut order f hc expected value) hd
        (h.crash_compareAndPut hc f)
  | delete key => exact crash_locked (h.run_delete order hc) hd (h.crash_delete hc)

/-- A call that has a reply has that of a store in memory. -/
theorem answer_eq_of_some (horder : ∀ names, (order names).Perm names) {x : Reply c} {s' : Opened}
    (hrun : f.answer? order c s = (some x, s')) :
    x = (Memory.answer c m).1 ∧ Mirrors s' (Memory.answer c m).2 := by
  have hfits : c.Fits := by
    cases c with
    | scan start after limit =>
        by_contra hroom
        have hdead : (scan start after limit).run (answer order) s = (none, s) :=
          run_scan_of_no_room order h.present start after (Bool.eq_false_iff.mpr hroom)
        cases hdead.symm.trans hrun
    | get | put | compareAndPut | delete => exact hc
  obtain ⟨s'', hrun', h'⟩ := h.answer_eq order f horder hfits
  rw [hrun'] at hrun
  cases hrun
  exact ⟨rfl, h'⟩

end Calls

end Mirrors

/-! What a store comes through. -/

inductive FileStore.Event where
  | answered (c : Call) (reply : Reply c)
  /-- The process dies within a call, and another opens the directory. -/
  | interrupted (c : Call)
  /-- The process ends at rest, and another opens the directory. -/
  | reopened

/-- A store in a directory that was empty once, as the latest of its processes has it. The events are
those since then, latest first. -/
inductive FileStore.Survives : List FileStore.Event → FileStore → Opened → Prop
  | opened (f : FileStore) (present : Bool) : Survives [] f (FileStore.open ⟨present, []⟩)
  | answered {events : List FileStore.Event} {f : FileStore} {s s' : Opened} (h : Survives events f s)
      {c : Call} (hc : c.NamesFit) {order : List Bytes → List Bytes}
      (horder : ∀ names, (order names).Perm names) {reply : Reply c}
      (hrun : f.answer? order c s = (some reply, s')) : Survives (.answered c reply :: events) f s'
  | interrupted {events : List FileStore.Event} {f : FileStore} {s : Opened} (h : Survives events f s)
      {c : Call} (hc : c.NamesFit) {order : List Bytes → List Bytes} {d : Directory}
      (hcrash : Crashes order (f.perform c) s d) (f' : FileStore) :
      Survives (.interrupted c :: events) f' (FileStore.open d)
  | reopened {events : List FileStore.Event} {f : FileStore} {s : Opened} (h : Survives events f s)
      (f' : FileStore) : Survives (.reopened :: events) f' (FileStore.open s.disk)

/-- A store in memory that accounts for what was seen of another: it gives the same replies, and each
call that was interrupted it makes or leaves out. -/
inductive Memory.Explains : List FileStore.Event → Memory → Prop
  | empty : Explains [] []
  | answered {events : List FileStore.Event} {m : Memory} (h : Explains events m) (c : Call) :
      Explains (.answered c (answer c m).1 :: events) (answer c m).2
  | undone {events : List FileStore.Event} {m : Memory} (h : Explains events m) (c : Call) :
      Explains (.interrupted c :: events) m
  | done {events : List FileStore.Event} {m : Memory} (h : Explains events m) (c : Call) :
      Explains (.interrupted c :: events) (answer c m).2
  | reopened {events : List FileStore.Event} {m : Memory} (h : Explains events m) :
      Explains (.reopened :: events) m

theorem FileStore.Survives.mirrors {events : List FileStore.Event} {f : FileStore} {s : Opened}
    (h : Survives events f s) : ∃ m, Memory.Explains events m ∧ Mirrors s m := by
  induction h with
  | opened f present => exact ⟨[], .empty, mirrors_open present⟩
  | answered h hc horder hrun ih =>
      obtain ⟨m, hm, hs⟩ := ih
      obtain ⟨rfl, hs'⟩ := hs.answer_eq_of_some hc _ horder hrun
      exact ⟨_, .answered hm _, hs'⟩
  | interrupted h hc hcrash f' ih =>
      obtain ⟨m, hm, hs⟩ := ih
      rcases hs.crash hc _ hcrash with hs' | hs'
      · exact ⟨m, .undone hm _, hs'⟩
      · exact ⟨_, .done hm _, hs'⟩
  | reopened h f' ih =>
      obtain ⟨m, hm, hs⟩ := ih
      exact ⟨m, .reopened hm, hs.reopen⟩

/-- Whatever calls a store in a directory has come through, and wherever its processes died, a store
in memory accounts for all that was seen of it if of each interrupted call it is chosen whether it was
made; and every call from then on is answered as there, without fail. -/
theorem FileStore.Survives.explained {events : List FileStore.Event} {f : FileStore} {s : Opened}
    (h : Survives events f s) :
    ∃ m, Memory.Explains events m ∧
      ∀ c : Call, c.Fits → ∀ order : List Bytes → List Bytes, (∀ names, (order names).Perm names) →
        ∃ a, (f.answer? order c s).1 = some (.ok a) ∧ (Memory.answer c m).1 = .ok a := by
  obtain ⟨m, hm, hs⟩ := h.mirrors
  refine ⟨m, hm, fun c hc order horder => ?_⟩
  obtain ⟨a, ha⟩ := Memory.exists_answer c m
  obtain ⟨s', hrun, -⟩ := hs.answer_eq order f horder hc
  exact ⟨a, by rw [hrun, ha], ha⟩

/-- A process dies with its temporary file half written, the next has the same number and so writes
to the same file, and lists what is there backwards. -/
theorem FileStore.Survives.explained_torn :
    let f : FileStore := ⟨7, fun _ => 0⟩
    let events : List FileStore.Event := [.answered (.scan "" none 5) (.ok ["a"]),
      .answered (.put "a" [1]) (.ok ()), .interrupted (.put "a" [8, 9])]
    ∃ s, Survives events f s ∧ ∃ m, Memory.Explains events m ∧
      ∀ c : Call, c.Fits → ∀ order : List Bytes → List Bytes, (∀ names, (order names).Perm names) →
        ∃ a, (f.answer? order c s).1 = some (.ok a) ∧ (Memory.answer c m).1 = .ok a := by
  intro f events
  have hkey : FitsName "a" := by
    unfold FitsName
    decide
  have hpart : ([8] : Bytes) <+: [8, 9] := List.prefix_append [8] [9]
  let d : Directory := ⟨true, [(temporary "a" 7 0, .file [8])]⟩
  have hcrash : Crashes id (f.perform (.put "a" [8, 9])) (FileStore.open ⟨false, []⟩) d :=
    (mirrors_open false).crashes_put hkey f hpart
  have h₁ := (Survives.opened f false).interrupted (c := .put "a" [8, 9]) hkey hcrash f
  have hd : Mirrors (FileStore.open d) [] :=
    (mirrors_open true).set_temporary (isTemporary_temporary "a" 7 0) [8]
  have hfirst : ∀ names : List Bytes, (id names).Perm names := fun _ => .rfl
  obtain ⟨s, hput, hs⟩ := hd.answer_eq (c := .put "a" [1]) id f hfirst hkey
  have hroom : hasRoom 5 = true := by decide
  obtain ⟨s', hscan, -⟩ :=
    hs.answer_eq (c := .scan "" none 5) List.reverse f List.reverse_perm hroom
  have h₂ := h₁.answered (c := .put "a" [1]) hkey hfirst hput
  have h₃ : Survives events f s' :=
    h₂.answered (c := .scan "" none 5) trivial List.reverse_perm hscan
  exact ⟨s', h₃, h₃.explained⟩

end Upkeep.Store
