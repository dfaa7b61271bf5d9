import Upkeep.Proofs.Store.Shown

/-!
A store in a directory against a store in memory. As long as one file stands for each key, and nothing
else is in the directory but temporary files, a call comes to the same in both: no name of a temporary
file is that of a key, and the order in which the directory is listed is lost in the selection.
-/

namespace Upkeep.Store

open Files FileNames FileStore

def FitsName (key : String) : Prop :=
  1 ≤ (Utf8.encode key).length ∧ (Utf8.encode key).length ≤ 114

/-- Calls of such keys, and scans that there is room for. -/
def Call.Fits : Call → Prop
  | .scan _ _ limit => FileStore.hasRoom limit = true
  | .get key | .put key _ | .compareAndPut key .. | .delete key => FitsName key

/-- In the directory there is a file for each key, and nothing else but temporary files. -/
structure Mirrors (s : Opened) (m : Memory) : Prop where
  present : s.disk.present = true
  entries_ascending : s.disk.entries.Ascending
  ascending : Table.Ascending m
  content : ∀ key, s.disk.entries.get? (FileNames.ofKey key) = (m.get? key).map Entry.file
  names : ∀ name ∈ s.disk.entries.keys,
    (∃ key, name = FileNames.ofKey key) ∨ FileNames.isTemporary name = true
  not_directory : ∀ name, s.disk.entries.get? name ≠ some .directory

theorem isName_ofKey {key : String} (h : FitsName key) : IsName (ofKey key) := by
  have hlen := length_ofKey key
  refine ⟨fun e => ?_, ?_⟩
  · rw [e, List.length_nil] at hlen
    have := h.1
    omega
  · have := h.2
    rw [maxName]
    omega

theorem isName_temporary {key : String} (h : FitsName key) (process serial : UInt32) :
    IsName (temporary key process.toNat serial.toNat) := by
  have hlen := length_temporary_le key process.toNat_lt serial.toNat_lt
  have := h.2
  refine ⟨temporary_ne_nil _ _ _, ?_⟩
  rw [maxName]
  omega

namespace Mirrors

variable {s : Opened} {m : Memory} (h : Mirrors s m)

include h

theorem shows : Shows s m where
  present := h.present
  entries_ascending := h.entries_ascending
  ascending := h.ascending
  content := h.content
  named name hname key hkey := by
    rcases h.names name hname with ⟨key', rfl⟩ | htemp
    · rw [key?_ofKey] at hkey
      rw [Option.some.inj hkey]
    · rw [key?_of_isTemporary htemp] at hkey
      cases hkey

/-- The serial number does not matter. -/
theorem of_disk_eq {s' : Opened} (hdisk : s'.disk = s.disk) : Mirrors s' m :=
  ⟨hdisk ▸ h.present, hdisk ▸ h.entries_ascending, h.ascending, hdisk ▸ h.content, hdisk ▸ h.names,
    hdisk ▸ h.not_directory⟩

theorem of_set {name : Bytes} {content : Bytes} {m' : Memory}
    (hshows : Shows { s with disk := Directory.set s.disk name (.file content) } m')
    (hname : (∃ key, name = ofKey key) ∨ isTemporary name = true) :
    Mirrors { s with disk := Directory.set s.disk name (.file content) } m' where
  present := hshows.present
  entries_ascending := hshows.entries_ascending
  ascending := hshows.ascending
  content := hshows.content
  names name' hmem := by
    obtain ⟨p, hp, rfl⟩ := List.mem_map.mp hmem
    rcases Table.mem_of_mem_insert hp with rfl | hp
    · exact hname
    · exact h.names _ (List.mem_map_of_mem hp)
  not_directory name' := by
    rw [Directory.set, Table.get?_insert]
    split
    · simp
    · exact h.not_directory name'

theorem set_file (key : String) (value : Bytes) :
    Mirrors { s with disk := Directory.set s.disk (ofKey key) (.file value) }
      (Table.insert m key value) :=
  h.of_set (h.shows.set_file key value) (.inl ⟨key, rfl⟩)

/-- What temporary files hold does not matter. -/
theorem set_temporary {name : Bytes} (hname : isTemporary name = true) (content : Bytes) :
    Mirrors { s with disk := Directory.set s.disk name (.file content) } m :=
  h.of_set (h.shows.set_temporary hname content) (.inr hname)

theorem of_remove {name : Bytes} {m' : Memory}
    (hshows : Shows { s with disk := Directory.remove s.disk name } m') :
    Mirrors { s with disk := Directory.remove s.disk name } m' where
  present := hshows.present
  entries_ascending := hshows.entries_ascending
  ascending := hshows.ascending
  content := hshows.content
  names name' hname := by
    obtain ⟨p, hp, rfl⟩ := List.mem_map.mp hname
    exact h.names _ (List.mem_map_of_mem (Table.mem_of_mem_erase hp))
  not_directory name' hdirectory := by
    have hmem := Table.mem_of_mem_erase (Table.mem_of_get? hdirectory)
    exact h.not_directory name' (Table.get?_of_mem h.entries_ascending hmem)

theorem remove_file (key : String) :
    Mirrors { s with disk := Directory.remove s.disk (ofKey key) } (Table.erase m key) :=
  h.of_remove (h.shows.remove_file key)

theorem remove_temporary {name : Bytes} (hname : isTemporary name = true) :
    Mirrors { s with disk := Directory.remove s.disk name } m :=
  h.of_remove (h.shows.remove_temporary hname)

section Calls

variable (order : List Bytes → List Bytes) (f : FileStore)

/-- The file of a key is unlinked if it is there, and no other file is touched. -/
theorem answer_unlink {key : String} (hkey : FitsName key) :
    ∃ x s', answer order (.unlink (ofKey key)) s = (x, s') ∧
      removed x = .ok (m.get? key).isSome ∧ Mirrors s' (Table.erase m key) ∧
      ∀ name ≠ ofKey key, s'.disk.entries.get? name = s.disk.entries.get? name := by
  have hcontent := h.content key
  cases hget : m.get? key with
  | none =>
      rw [hget] at hcontent
      rw [Table.erase_of_not_mem (Table.get?_eq_none_iff.mp hget)]
      exact ⟨_, s, congrArg (settle s) (unlink_none h.present (isName_ofKey hkey) hcontent), rfl, h,
        fun _ _ => rfl⟩
  | some value =>
      rw [hget] at hcontent
      exact ⟨_, _, congrArg (settle s) (unlink_file h.present (isName_ofKey hkey) hcontent), rfl,
        h.remove_file key, fun name hname => Table.get?_erase_of_ne _ hname⟩

/-- A temporary file is made, whether or not one of its name was left behind. -/
theorem answer_create {name : Bytes} (hname : IsName name) :
    answer order (.create name) s =
      (.ok (), { s with disk := Directory.set s.disk name (.file []) }) :=
  Files.answer_create order h.present hname (h.not_directory name)

theorem answer_append {name content : Bytes} (hname : IsName name)
    (hfile : s.disk.entries.get? name = some (.file content)) (part : Bytes) :
    answer order (.append name part) s =
      (.ok (), { s with disk := Directory.set s.disk name (.file (content ++ part)) }) :=
  Files.answer_append order h.present hname hfile part

theorem answer_rename {name content : Bytes} {key : String} (hname : IsName name)
    (hkey : IsName (ofKey key)) (hfile : s.disk.entries.get? name = some (.file content)) :
    answer order (.rename name (ofKey key)) s = (.ok (), { s with
      disk := Directory.set (Directory.remove s.disk name) (ofKey key) (.file content) }) :=
  Files.answer_rename order h.present hname hkey hfile (h.not_directory _)

theorem run_writeTo {key : String} (hkey : IsName (ofKey key)) (value : Bytes) {temp : Bytes}
    (hname : IsName temp) (htemp : isTemporary temp = true) :
    ∃ s', (writeTo temp key value).run (answer order) s = (some (.ok ()), s') ∧
      Mirrors s' (Table.insert m key value) := by
  refine ⟨_, h.shows.run_writeTo order hkey value hname htemp (h.not_directory temp), ?_⟩
  exact (((h.set_temporary htemp []).set_temporary htemp value).remove_temporary htemp).set_file key
    value

/-- Writing a key, when its file and the temporary file may have their names. -/
theorem run_write_of_isName {key : String} (hkey : IsName (ofKey key))
    (hname : IsName (temporary key f.process.toNat s.serial.toNat)) (value : Bytes) :
    ∃ s', (f.write key [value]).run (answer order) s = (some (.ok ()), s') ∧
      Mirrors s' (Table.insert m key value) := by
  rw [write_eq]
  have h' : Mirrors ⟨s.disk, s.serial + 1⟩ m := h.of_disk_eq rfl
  exact h'.run_writeTo order hkey value hname (isTemporary_temporary key _ _)

/-- Writing a key. -/
theorem run_write {key : String} (hkey : FitsName key) (value : Bytes) :
    ∃ s', (f.write key [value]).run (answer order) s = (some (.ok ()), s') ∧
      Mirrors s' (Table.insert m key value) :=
  h.run_write_of_isName order f (isName_ofKey hkey) (isName_temporary hkey f.process s.serial) value

/-- A key cannot be written when the name of the temporary file is too long. Its number is spent. -/
theorem run_write_long {key : String}
    (hlong : maxName < (temporary key f.process.toNat s.serial.toNat).length) (value : Bytes) :
    (f.write key [value]).run (answer order) s =
      (some (.error (.file .nameTooLong)), { s with serial := s.serial + 1 }) := by
  have hcreate : create s.disk (temporary key f.process.toNat s.serial.toNat) =
      .error .nameTooLong := by
    rw [create, resolve_long h.present hlong]
  exact run_write_refused order hcreate value

theorem run_compareAndPut {key : String} (hkey : FitsName key) (expected value : Bytes) :
    ∃ s', (f.compareAndPut key expected value).run (answer order) s =
        (some (.ok (Memory.compareAndPut m key expected value).1), s') ∧
      Mirrors s' (Memory.compareAndPut m key expected value).2 := by
  rw [FileStore.compareAndPut, Program.run_onSuccess, h.shows.run_read order (isName_ofKey hkey), Memory.compareAndPut]
  dsimp only
  by_cases hheld : m.get? key = some expected
  · obtain ⟨s', hrun, h'⟩ := h.run_write order f hkey value
    rw [if_pos hheld, if_pos hheld, Program.run_onSuccess, hrun]
    exact ⟨s', rfl, h'⟩
  · rw [if_neg hheld, if_neg hheld]
    exact ⟨s, rfl, h⟩

theorem run_delete {key : String} (hkey : FitsName key) :
    ∃ s', (delete key).run (answer order) s = (some (.ok (m.get? key).isSome), s') ∧
      Mirrors s' (Table.erase m key) := by
  obtain ⟨x, s', hunlink, hx, h', -⟩ := h.answer_unlink order hkey
  refine ⟨s', ?_, h'⟩
  rw [delete_eq, ← hx]
  exact Program.run_ask_of_answer hunlink _

/-- Every call comes to the same in both. -/
theorem answer_eq (horder : ∀ names, (order names).Perm names) {c : Call} (hc : c.Fits) :
    ∃ s', f.answer? order c s = (some (Memory.answer c m).1, s') ∧
      Mirrors s' (Memory.answer c m).2 := by
  cases c with
  | scan start after limit => exact ⟨s, h.shows.run_scan order horder start after hc, h⟩
  | get key => exact ⟨s, h.shows.run_read order (isName_ofKey hc), h⟩
  | put key value =>
      obtain ⟨s', hrun, h'⟩ := h.run_write order f hc value
      exact ⟨s', (run_locked order f key _ s).trans hrun, h'⟩
  | compareAndPut key expected value =>
      obtain ⟨s', hrun, h'⟩ := h.run_compareAndPut order f hc expected value
      exact ⟨s', (run_locked order f key _ s).trans hrun, h'⟩
  | delete key =>
      obtain ⟨s', hrun, h'⟩ := h.run_delete order hc
      exact ⟨s', (run_locked order f key _ s).trans hrun, h'⟩

end Calls

end Mirrors

/-! Calls one after another. -/

def Memory.replies : List Call → Memory → List ((c : Call) × Reply c)
  | [], _ => []
  | c :: calls, m => ⟨c, (answer c m).1⟩ :: replies calls (answer c m).2

/-- The replies of a store in a directory, each call with the order in which the directory would be
listed at the time. A reply is missing where the process does not survive the call. -/
def FileStore.replies (f : FileStore) :
    List (Call × (List Bytes → List Bytes)) → Opened → List ((c : Call) × Option (Reply c))
  | [], _ => []
  | (c, order) :: calls, s => ⟨c, (f.answer? order c s).1⟩ :: replies f calls (f.answer? order c s).2

theorem Memory.exists_answer (c : Call) (m : Memory) : ∃ a, (answer c m).1 = .ok a := by
  cases c <;> exact ⟨_, rfl⟩

theorem Memory.isOk_of_mem_replies {calls : List Call} {m : Memory} {r : (c : Call) × Reply c}
    (h : r ∈ replies calls m) : ∃ a, r.2 = .ok a := by
  induction calls generalizing m with
  | nil => cases h
  | cons c calls ih =>
      rcases List.mem_cons.mp h with rfl | h
      · cases c <;> exact ⟨_, rfl⟩
      · exact ih h

theorem Mirrors.replies_eq {s : Opened} {m : Memory} (h : Mirrors s m) (f : FileStore)
    {calls : List (Call × (List Bytes → List Bytes))} (hcalls : ∀ p ∈ calls, p.1.Fits)
    (horder : ∀ p ∈ calls, ∀ names, (p.2 names).Perm names) :
    f.replies calls s =
      (Memory.replies (calls.map Prod.fst) m).map fun r => ⟨r.1, some r.2⟩ := by
  induction calls generalizing s m with
  | nil => rfl
  | cons p calls ih =>
      obtain ⟨s', hrun, h'⟩ := h.answer_eq p.2 f (horder p List.mem_cons_self) (hcalls p List.mem_cons_self)
      have hrest := ih h' (fun q hq => hcalls q (List.mem_cons_of_mem _ hq))
        fun q hq => horder q (List.mem_cons_of_mem _ hq)
      rw [FileStore.replies, hrun, hrest]
      rfl

theorem mirrors_open (present : Bool) : Mirrors (FileStore.open ⟨present, []⟩) [] :=
  ⟨rfl, .nil, .nil, fun _ => rfl, fun _ h => (nomatch h), fun _ h => nomatch h⟩

/-- Calls of short keys one after another have the same replies in a directory that was empty when it
was opened as in memory, in whatever orders the directory is listed; and none of them fails. -/
theorem replies_agree (f : FileStore) (present : Bool)
    {calls : List (Call × (List Bytes → List Bytes))} (hcalls : ∀ p ∈ calls, p.1.Fits)
    (horder : ∀ p ∈ calls, ∀ names, (p.2 names).Perm names) :
    f.replies calls (FileStore.open ⟨present, []⟩) =
        (Memory.replies (calls.map Prod.fst) []).map (fun r => ⟨r.1, some r.2⟩) ∧
      ∀ r ∈ Memory.replies (calls.map Prod.fst) [], ∃ a, r.2 = .ok a :=
  ⟨(mirrors_open present).replies_eq f hcalls horder, fun _ => Memory.isOk_of_mem_replies⟩

/-- Two keys are written, the directory is listed backwards, and one key is taken out again. -/
theorem replies_agree_backwards :
    let calls : List (Call × (List Bytes → List Bytes)) :=
      [(.put "b" [1], id), (.put "a" [], id), (.scan "" none 5, List.reverse),
        (.compareAndPut "b" [1] [2], id), (.delete "a", id), (.get "b", id)]
    (∀ p ∈ calls, p.1.Fits) ∧ (∀ p ∈ calls, ∀ names, (p.2 names).Perm names) ∧
      FileStore.replies ⟨7, fun _ => 0⟩ calls (FileStore.open ⟨false, []⟩) =
        [⟨.put "b" [1], some (.ok ())⟩, ⟨.put "a" [], some (.ok ())⟩,
          ⟨.scan "" none 5, some (.ok ["a", "b"])⟩, ⟨.compareAndPut "b" [1] [2], some (.ok true)⟩,
          ⟨.delete "a", some (.ok true)⟩, ⟨.get "b", some (.ok (some [2]))⟩] := by
  intro calls
  have hcalls : ∀ p ∈ calls, p.1.Fits := by
    simp only [calls, List.forall_mem_cons, List.not_mem_nil, false_imp_iff, implies_true, and_true]
    have hkey : FitsName "a" ∧ FitsName "b" := by
      unfold FitsName
      decide
    exact ⟨hkey.2, hkey.1, show hasRoom 5 = true by decide, hkey.2, hkey.1, hkey.2⟩
  have horder : ∀ p ∈ calls, ∀ names, (p.2 names).Perm names := by
    simp only [calls, List.forall_mem_cons, List.not_mem_nil, false_imp_iff, implies_true, and_true]
    exact ⟨.refl, .refl, List.reverse_perm, .refl, .refl, .refl⟩
  exact ⟨hcalls, horder, (replies_agree ⟨7, fun _ => 0⟩ false hcalls horder).1.trans rfl⟩

end Upkeep.Store
