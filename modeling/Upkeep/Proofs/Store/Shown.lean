import Upkeep.Proofs.Store.Files
import Upkeep.Proofs.Store.Scan
import Upkeep.Proofs.Store.Smallest

/-!
What a directory shows of a store. Names are read back as keys when the directory is listed, and keys
are written as names when they are looked up; the two agree as long as every entry that is taken for a
key is the file that the store would have made for it. Whatever else is there is passed over.
-/

namespace Upkeep.Store

open Files FileNames FileStore

/-- A scan selects from the names that are read back as keys. Asked for none, it does not list. -/
theorem run_scan_of_listed {σ : Type} {answer : Program.Answers files σ} {s s' : σ}
    {names : List Bytes} (hlist : answer .list s = (.ok names, s')) (start : String)
    (after : Option String) {limit : Nat} (hroom : hasRoom limit = true) :
    (scan start after limit).run answer s =
      (some (.ok (Smallest.select limit (qualifying start after names))),
        if limit = 0 then s else s') := by
  by_cases hlimit : limit = 0
  · rw [scan, if_pos hlimit, if_pos hlimit, hlimit, Smallest.select_zero]
    rfl
  · rw [scan, if_neg hlimit, if_neg hlimit]
    refine (Program.run_request_bind _ _ hlist _).trans ?_
    dsimp only
    rw [hroom]
    rfl

theorem run_scan_of_present (order : List Bytes → List Bytes) {s : Opened}
    (hs : s.disk.present = true) (start : String) (after : Option String) {limit : Nat}
    (hroom : hasRoom limit = true) : (scan start after limit).run (answer order) s =
      (some (.ok (Smallest.select limit (qualifying start after (order s.disk.entries.keys)))), s) := by
  rw [run_scan_of_listed (answer_list order hs) start after hroom, ite_self]

/-- A scan that there is no room for is the end of its process. -/
theorem run_scan_of_no_room (order : List Bytes → List Bytes) {s : Opened}
    (hs : s.disk.present = true) (start : String) (after : Option String) {limit : Nat}
    (hroom : hasRoom limit = false) : (scan start after limit).run (answer order) s = (none, s) := by
  have hlimit : limit ≠ 0 := by
    rintro rfl
    cases hroom
  rw [scan, if_neg hlimit]
  refine (Program.run_request_bind _ _ (answer_list order hs) _).trans ?_
  dsimp only
  rw [if_neg (Bool.eq_false_iff.mp hroom)]
  rfl

/-- In the directory there is a file for each key, and nothing else that is taken for one. -/
structure Shows (s : Opened) (m : Memory) : Prop where
  present : s.disk.present = true
  entries_ascending : s.disk.entries.Ascending
  ascending : Table.Ascending m
  content : ∀ key, s.disk.entries.get? (ofKey key) = (m.get? key).map Entry.file
  named : ∀ name ∈ s.disk.entries.keys, ∀ key, key? name = some key → name = ofKey key

namespace Shows

variable {s : Opened} {m : Memory} (h : Shows s m)

include h

theorem not_directory (key : String) : s.disk.entries.get? (ofKey key) ≠ some .directory := by
  rw [h.content]
  cases m.get? key <;> simp

/-- The serial number does not matter. -/
theorem of_disk_eq {s' : Opened} (hdisk : s'.disk = s.disk) : Shows s' m :=
  ⟨hdisk ▸ h.present, hdisk ▸ h.entries_ascending, h.ascending, hdisk ▸ h.content, hdisk ▸ h.named⟩

theorem set_file (key : String) (value : Bytes) :
    Shows { s with disk := Directory.set s.disk (ofKey key) (.file value) }
      (Table.insert m key value) where
  present := h.present
  entries_ascending := Table.ascending_insert _ _ h.entries_ascending
  ascending := Table.ascending_insert key value h.ascending
  content key' := by
    rw [Directory.set, Table.get?_insert, Table.get?_insert]
    by_cases hkey : key' = key
    · rw [hkey, if_pos rfl, if_pos rfl]
      rfl
    · rw [if_neg hkey, if_neg fun e => hkey (ofKey_injective e)]
      exact h.content key'
  named name hname key' hkey' := by
    obtain ⟨p, hp, rfl⟩ := List.mem_map.mp hname
    rcases Table.mem_of_mem_insert hp with rfl | hp
    · rw [key?_ofKey] at hkey'
      rw [Option.some.inj hkey']
    · exact h.named _ (List.mem_map_of_mem hp) key' hkey'

/-- What temporary files hold does not matter. -/
theorem set_temporary {name : Bytes} (hname : isTemporary name = true) (content : Bytes) :
    Shows { s with disk := Directory.set s.disk name (.file content) } m where
  present := h.present
  entries_ascending := Table.ascending_insert _ _ h.entries_ascending
  ascending := h.ascending
  content key := by
    rw [Directory.set, Table.get?_insert_of_ne _ _ (ofKey_ne_of_isTemporary hname key)]
    exact h.content key
  named name' hmem key hkey := by
    obtain ⟨p, hp, rfl⟩ := List.mem_map.mp hmem
    rcases Table.mem_of_mem_insert hp with rfl | hp
    · rw [key?_of_isTemporary hname] at hkey
      cases hkey
    · exact h.named _ (List.mem_map_of_mem hp) key hkey

theorem remove {name : Bytes} {m' : Memory} (hm' : Table.Ascending m')
    (hcontent : ∀ key, (s.disk.entries.erase name).get? (ofKey key) = (m'.get? key).map Entry.file) :
    Shows { s with disk := Directory.remove s.disk name } m' where
  present := h.present
  entries_ascending := Table.ascending_erase _ h.entries_ascending
  ascending := hm'
  content := hcontent
  named name' hname key hkey := by
    obtain ⟨p, hp, rfl⟩ := List.mem_map.mp hname
    exact h.named _ (List.mem_map_of_mem (Table.mem_of_mem_erase hp)) key hkey

theorem remove_file (key : String) :
    Shows { s with disk := Directory.remove s.disk (ofKey key) } (Table.erase m key) := by
  refine h.remove (Table.ascending_erase key h.ascending) fun key' => ?_
  by_cases hkey : key' = key
  · rw [hkey, Table.get?_erase_self _ h.entries_ascending, Table.get?_erase_self _ h.ascending]
    rfl
  · rw [Table.get?_erase_of_ne _ fun e => hkey (ofKey_injective e), Table.get?_erase_of_ne _ hkey]
    exact h.content key'

theorem remove_temporary {name : Bytes} (hname : isTemporary name = true) :
    Shows { s with disk := Directory.remove s.disk name } m := by
  refine h.remove h.ascending fun key => ?_
  rw [Table.get?_erase_of_ne _ (ofKey_ne_of_isTemporary hname key)]
  exact h.content key

/-- The keys of the files are the keys of the table, however the directory is listed. -/
theorem keys_perm {names : List Bytes} (hnames : names.Perm s.disk.entries.keys) :
    (names.filterMap key?).Perm m.keys := by
  -- a name that is read back as a key can be written again
  have hmap : ∀ l : List Bytes, (∀ name ∈ l, ∀ key, key? name = some key → name = ofKey key) →
      (l.filterMap key?).map ofKey = l.filter fun name => (key? name).isSome := fun l hl => by
    induction l with
    | nil => rfl
    | cons name l ih =>
        have hrest := ih fun n hn => hl n (List.mem_cons_of_mem _ hn)
        cases hkey : key? name with
        | none => rw [List.filterMap_cons_none hkey, hrest, List.filter_cons_of_neg (by simp [hkey])]
        | some key =>
            rw [List.filterMap_cons_some hkey, List.map_cons, hrest,
              List.filter_cons_of_pos (by simp [hkey]), ← hl _ List.mem_cons_self key hkey]
  have hkeys := hmap _ h.named
  have hnodup : (s.disk.entries.keys.filterMap key?).Nodup := by
    refine List.Nodup.of_map ofKey ?_
    rw [hkeys]
    exact (Table.nodup_keys h.entries_ascending).filter _
  refine (hnames.filterMap key?).trans
    ((List.perm_ext_iff_of_nodup hnodup (Table.nodup_keys h.ascending)).mpr fun key => ?_)
  have hfile : key ∈ s.disk.entries.keys.filterMap key? ↔ ofKey key ∈ s.disk.entries.keys := by
    constructor
    · intro hmem
      exact List.mem_of_mem_filter (hkeys ▸ List.mem_map_of_mem hmem)
    · exact fun hmem => List.mem_filterMap.mpr ⟨_, hmem, key?_ofKey key⟩
  rw [hfile, ← not_iff_not, ← Table.get?_eq_none_iff, ← Table.get?_eq_none_iff, h.content,
    Option.map_eq_none_iff]

section Calls

variable (order : List Bytes → List Bytes)

theorem found_read {key : String} (hkey : IsName (ofKey key)) :
    found (Files.read s.disk (ofKey key)) = .ok (m.get? key) := by
  have hcontent := h.content key
  cases hget : m.get? key with
  | none =>
      rw [hget] at hcontent
      rw [read_none h.present hkey hcontent]
      rfl
  | some value =>
      rw [hget] at hcontent
      rw [read_file h.present hkey hcontent]
      rfl

/-- If the names of the files are names that files may have, a key has a value that can be read
exactly if it is there. -/
theorem exists_found_iff (hnames : ∀ key ∈ m.keys, IsName (ofKey key)) {key : String} :
    (∃ value, found (Files.read s.disk (ofKey key)) = .ok (some value)) ↔ key ∈ m.keys := by
  rw [Table.mem_keys_iff, Option.isSome_iff_exists]
  constructor
  · rintro ⟨value, hvalue⟩
    obtain ⟨hkey, -⟩ := of_read h.present (found_eq_some hvalue)
    rw [h.found_read hkey] at hvalue
    exact ⟨value, Except.ok.inj hvalue⟩
  · rintro ⟨value, hvalue⟩
    have hkey := hnames key (Table.mem_keys_iff.mpr (hvalue ▸ rfl))
    exact ⟨value, hvalue ▸ h.found_read hkey⟩

/-- Reading a key. -/
theorem run_read {key : String} (hkey : IsName (ofKey key)) :
    (read key).run (answer order) s = (some (.ok (m.get? key)), s) := by
  rw [FileStore.run_read, h.found_read hkey]

theorem run_scan (horder : ∀ names, (order names).Perm names) (start : String)
    (after : Option String) {limit : Nat} (hroom : hasRoom limit = true) :
    (scan start after limit).run (answer order) s = (some (.ok (Memory.scan m start after limit)), s) := by
  have hperm : (qualifying start after (order s.disk.entries.keys)).Perm
      (m.keys.filter fun k => startsWith start k && isAfter after k) :=
    (h.keys_perm (horder _)).filter _
  have hsorted : (m.keys.filter fun k => startsWith start k && isAfter after k).Pairwise (· ≤ ·) :=
    ((Table.ascending_iff_keys.mp h.ascending).filter _).imp Std.le_of_lt
  rw [Memory.scan_eq h.ascending, ← Smallest.select_eq hperm hsorted]
  exact run_scan_of_present order h.present start after hroom

/-- A value is written to a temporary file, which is renamed. -/
theorem run_writeTo {key : String} (hkey : IsName (ofKey key)) (value : Bytes) {temp : Bytes}
    (hname : IsName temp) (htemp : isTemporary temp = true)
    (hfree : s.disk.entries.get? temp ≠ some .directory) :
    (writeTo temp key value).run (answer order) s = (some (.ok ()), { s with
      disk := Directory.set (Directory.remove (Directory.set (Directory.set s.disk temp (.file []))
        temp (.file value)) temp) (ofKey key) (.file value) }) := by
  have h₁ := h.set_temporary htemp []
  have h₂ := h₁.set_temporary htemp value
  have hcreate := Files.answer_create order h.present hname hfree
  have happend := Files.answer_append order h₁.present hname (Table.get?_insert_self ..) value
  have hrename := Files.answer_rename order h₂.present hname hkey (Table.get?_insert_self ..)
    (h₂.not_directory key)
  refine (Program.run_ask_of_answer hcreate _).trans ?_
  refine (Program.run_ask_of_answer happend _).trans ?_
  exact (Program.run_ask_of_answer hrename _).trans rfl

/-- A write is done, or the temporary file cannot be made and the disk is left as it is. -/
theorem run_write_or (f : FileStore) {key : String} (hkey : IsName (ofKey key)) (value : Bytes) :
    (∃ s', (f.write key [value]).run (answer order) s = (some (.ok ()), s') ∧
        Shows s' (Table.insert m key value)) ∨
      ∃ e s', (f.write key [value]).run (answer order) s = (some (.error e), s') ∧ Shows s' m := by
  have h' : Shows ⟨s.disk, s.serial + 1⟩ m := h.of_disk_eq rfl
  cases hcreate : create s.disk (temporary key f.process.toNat s.serial.toNat) with
  | error e => exact .inr ⟨_, _, run_write_refused order hcreate value, h'⟩
  | ok d =>
      have htemp := isTemporary_temporary key f.process.toNat s.serial.toNat
      obtain ⟨hname, hfree⟩ := of_create h.present (temporary_ne_nil _ _ _) hcreate
      rw [write_eq]
      refine .inl ⟨_, h'.run_writeTo order hkey value hname htemp hfree, ?_⟩
      exact (((h'.set_temporary htemp []).set_temporary htemp value).remove_temporary htemp).set_file
        key value

/-- Whatever a file holds, and whether or not it can be replaced, it stays the file of its key. -/
theorem run_compareAndPut_or (f : FileStore) (key : String) (expected value : Bytes) :
    ∃ x s' m', (f.compareAndPut key expected value).run (answer order) s = (some x, s') ∧
      Shows s' m' ∧ m'.keys = m.keys := by
  rw [FileStore.compareAndPut, Program.run_onSuccess, FileStore.run_read]
  cases hfound : found (Files.read s.disk (ofKey key)) with
  | error e => exact ⟨_, s, m, rfl, h, rfl⟩
  | ok current =>
      dsimp only
      by_cases hheld : current = some expected
      · subst hheld
        obtain ⟨hkey, -⟩ := of_read h.present (found_eq_some hfound)
        have hmem : key ∈ m.keys := by
          rw [h.found_read hkey] at hfound
          exact Table.mem_keys_iff.mpr (by rw [Except.ok.inj hfound]; rfl)
        rw [if_pos rfl, Program.run_onSuccess]
        rcases h.run_write_or order f hkey value with ⟨s', hrun, h'⟩ | ⟨e, s', hrun, h'⟩
        · rw [hrun]
          exact ⟨_, s', _, rfl, h', Table.keys_insert_of_mem value h.ascending hmem⟩
        · rw [hrun]
          exact ⟨_, s', m, rfl, h', rfl⟩
      · rw [if_neg hheld]
        exact ⟨_, s, m, rfl, h, rfl⟩

end Calls

end Shows

end Upkeep.Store
