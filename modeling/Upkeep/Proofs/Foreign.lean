import Upkeep.Proofs.Keepable

/-!
What others may leave in the directory of a store. An entry is taken for a key if its name can be read
back as one, whether or not the store would have named it so, and whether or not it is a file. Where it
is not the very file of that key, a scan gives a key that cannot be looked up, or gives one twice; and
that is all that can go wrong, whatever else is in the directory.
-/

namespace Upkeep

open Store Files FileNames FileStore Timeline

namespace Store

/-- A directory that a file system can hold: each entry has a name, which is no other's. -/
structure Directory.Sound (d : Directory) : Prop where
  present : d.present = true
  ascending : d.entries.Ascending
  names : ∀ name ∈ d.entries.keys, IsName name

/-- Whatever is taken for a key is a file, under the name that is written for the key. -/
def Directory.Tidy (d : Directory) : Prop :=
  ∀ p ∈ d.entries, ∀ key ∈ key? p.1, p.1 = ofKey key ∧ p.2 ≠ .directory

instance : DecidablePred Directory.Tidy := fun d =>
  inferInstanceAs (Decidable (∀ p ∈ d.entries, ∀ key ∈ key? p.1, p.1 = ofKey key ∧ p.2 ≠ .directory))

def Entry.content? : Entry → Option Bytes
  | .file content => some content
  | .directory => none

/-- What a scan gives can be looked up, in whatever order the directory is listed: each key is given
once, and has a value. -/
def Enumerable (f : FileStore) (s : Opened) : Prop :=
  ∀ order : List Bytes → List Bytes, (∀ names, (order names).Perm names) →
    ∀ start after limit, hasRoom limit = true →
      ∃ keys : List String, f.answer? order (.scan start after limit) s = (some (.ok keys), s) ∧ keys.Nodup ∧
        ∀ key ∈ keys, ∃ value, f.answer? order (.get key) s = (some (.ok (some value)), s)

section Enumerable

variable {f : FileStore} {s : Opened}

/-- A tidy directory shows a store. -/
theorem Directory.Tidy.exists_shows (ht : s.disk.Tidy) (hd : s.disk.Sound) : ∃ m, Shows s m := by
  obtain ⟨m, hm, hget⟩ := Table.exists_get?_eq (s.disk.entries.keys.filterMap key?) fun key =>
    (s.disk.entries.get? (ofKey key)).bind Entry.content?
  refine ⟨m, hd.present, hd.ascending, hm, fun key => ?_, fun name hname key hkey => ?_⟩
  · rw [hget]
    cases hentry : s.disk.entries.get? (ofKey key) with
    | none => split <;> rfl
    | some e =>
        have hmem := Table.mem_of_get? hentry
        have hkey : key ∈ s.disk.entries.keys.filterMap key? :=
          List.mem_filterMap.mpr ⟨_, List.mem_map_of_mem hmem, key?_ofKey key⟩
        rw [if_pos hkey]
        cases e with
        | file content => rfl
        | directory => exact absurd rfl (ht _ hmem key (key?_ofKey key)).2
  · obtain ⟨p, hp, rfl⟩ := List.mem_map.mp hname
    exact (ht p hp key hkey).1

theorem Shows.isName_ofKey {m : Memory} (h : Shows s m) (hd : s.disk.Sound) {key : String}
    (hkey : key ∈ m.keys) : IsName (ofKey key) := by
  obtain ⟨value, hvalue⟩ := Option.isSome_iff_exists.mp (Table.mem_keys_iff.mp hkey)
  have hentry := h.content key
  rw [hvalue] at hentry
  exact hd.names _ (List.mem_map_of_mem (Table.mem_of_get? hentry))

theorem Shows.enumerable {m : Memory} (h : Shows s m) (hd : s.disk.Sound) : Enumerable f s := by
  intro order horder start after limit hroom
  have hscan := Memory.scan_eq h.ascending start after limit
  refine ⟨_, h.run_scan order horder start after hroom, ?_, fun key hkey => ?_⟩
  · rw [hscan]
    exact ((Table.nodup_keys h.ascending).filter _).sublist (List.take_sublist _ _)
  · rw [hscan] at hkey
    have hmem := List.mem_of_mem_filter (List.mem_of_mem_take hkey)
    obtain ⟨value, hvalue⟩ := Option.isSome_iff_exists.mp (Table.mem_keys_iff.mp hmem)
    exact ⟨value, hvalue ▸ h.run_read order (h.isName_ofKey hd hmem)⟩

/-- A scan for a key itself begins with that key, as often as a name is read back as it. -/
theorem exists_scan_least (hd : s.disk.Sound) (names : List Bytes) {rest : List Bytes} {key : String}
    (hnames : s.disk.entries.keys.Perm (names ++ rest)) (hkey : ∀ name ∈ names, key? name = some key) :
    ∃ more, f.answer? id (.scan key none 2) s =
      (some (.ok ((List.replicate names.length key ++ more).take 2)), s) := by
  have hstart : startsWith key key = true := startsWith_iff.mpr (List.prefix_refl _)
  have hleast : ∀ k ∈ qualifying key none rest, key ≤ k := fun k hk =>
    le_of_startsWith (Bool.and_eq_true_iff.mp (List.mem_filter.mp hk).2).1
  have hread : names.filterMap key? = List.replicate names.length key :=
    (List.filterMap_congr hkey).trans (by simp)
  have hperm : (qualifying key none s.disk.entries.keys).Perm
      (List.replicate names.length key ++ qualifying key none rest) := by
    refine ((hnames.filterMap key?).filter _).trans ?_
    rw [List.filterMap_append, List.filter_append, hread, List.filter_replicate]
    simp [hstart, isAfter, qualifying]
  obtain ⟨more, hmore⟩ := Smallest.select_least 2 hperm hleast
  exact ⟨more, hmore ▸ run_scan_of_present id hd.present key none (by decide)⟩

/-- Where what scans give can be looked up, the directory is tidy. -/
theorem Enumerable.tidy (h : Enumerable f s) (hd : s.disk.Sound) : s.disk.Tidy := by
  intro p hp key hkey
  obtain ⟨keys, hscan, hnodup, hget⟩ := h id (fun names => .refl names) key none 2 (by decide)
  have hmem : p.1 ∈ s.disk.entries.keys := List.mem_map_of_mem hp
  -- the key is found, so its file can be read
  obtain ⟨more, hleast⟩ := exists_scan_least hd [p.1] (List.perm_cons_erase hmem)
    (by simpa using hkey)
  obtain rfl : keys = (List.replicate 1 key ++ more).take 2 :=
    Except.ok.inj (Option.some.inj (congrArg Prod.fst (hscan.symm.trans hleast)))
  obtain ⟨value, hvalue⟩ := hget key (by simp)
  have hfound : found (Files.read s.disk (ofKey key)) = .ok (some value) :=
    Option.some.inj (congrArg Prod.fst ((FileStore.run_read id key s).symm.trans hvalue))
  obtain ⟨-, hfile⟩ := of_read hd.present (found_eq_some hfound)
  by_cases hname : p.1 = ofKey key
  · refine ⟨hname, fun hdirectory => ?_⟩
    rw [← hname, Table.get?_of_mem hd.ascending hp, hdirectory] at hfile
    cases hfile
  · -- and then it is found twice
    have hother : ofKey key ∈ s.disk.entries.keys := List.mem_map_of_mem (Table.mem_of_get? hfile)
    have hperm : s.disk.entries.keys.Perm
        ([p.1, ofKey key] ++ (s.disk.entries.keys.erase p.1).erase (ofKey key)) :=
      (List.perm_cons_erase hmem).trans ((List.perm_cons_erase
        ((List.mem_erase_of_ne (Ne.symm hname)).mpr hother)).cons _)
    obtain ⟨more', htwice⟩ := exists_scan_least (f := f) hd _ hperm
      (by simpa using ⟨hkey, key?_ofKey key⟩)
    rw [hleast] at htwice
    have hkeys : (List.replicate 1 key ++ more).take 2 = [key, key] :=
      Except.ok.inj (Option.some.inj (congrArg Prod.fst htwice))
    rw [hkeys] at hnodup
    exact absurd hnodup (by simp)

/-- What scans give can be looked up exactly if the directory is tidy. -/
theorem Directory.Sound.enumerable_iff_tidy (hd : s.disk.Sound) : Enumerable f s ↔ s.disk.Tidy := by
  refine ⟨fun h => h.tidy hd, fun ht => ?_⟩
  obtain ⟨m, h⟩ := ht.exists_shows hd
  exact h.enumerable hd

end Enumerable

end Store

structure Browsable {σ : Type} (o : Outside σ) (names : List Bytes) (t : Timeline σ) : Prop where
  pages : ∀ (after : Option String) (limit : Nat), hasRoom (max limit 1) = true →
    ∃ page, (t.run o (Rows.page after limit)).1 = some (.ok page)
  passes : ∀ {ε : Type} (decode : Decoder ε) (pageSize budget : Nat),
    hasRoom (max pageSize 1) = true → names.length < budget →
      ∃ report, (t.run o (Sweep.pass decode pageSize budget)).1 = some (.ok report) ∧
        report.scanned = (qualifying Rows.start none names).length
  lists : ∀ (m : Markers) (budget : Nat), hasRoom (max m.pageSize 1) = true → names.length < budget →
    ∃ ds, (t.run o (m.list budget)).1 = some (.ok ds) ∧ ds.Nodup ∧
      ∀ d, d ∈ ds ↔ (t.run o (m.contains d)).1 = some (.ok true)

namespace Outside.OnDisk

variable {σ : Type} {o : Outside σ} {f : FileStore} {opened : σ → Opened} {t : Timeline σ}
  {rows : Memory} (ho : o.OnDisk f opened) (h : Shows (opened t.outside) rows)
  (hd : (opened t.outside).disk.Sound)

include ho h hd

theorem run_contains_iff (m : Markers) (d : Did) :
    (t.run o (m.contains d)).1 = some (.ok true) ↔ m.key d ∈ rows.keys := by
  rw [← h.exists_found_iff (fun _ => h.isName_ofKey hd)]
  obtain ⟨s, -, hrun⟩ := ho.run_look (t := t) (m.key d) _
  rw [Markers.contains, Program.onSuccess, hrun]
  cases hfound : found (Files.read (opened t.outside).disk (ofKey (m.key d))) with
  | error e => simp [Except.mapError, run_done]
  | ok value => cases value <;> simp [Except.mapError, Work.ok, run_done]

/-- A directory that shows a store can be browsed. -/
theorem browsable : Browsable o (opened t.outside).disk.entries.keys t := by
  have hnames : ∀ key ∈ rows.keys, IsName (ofKey key) := fun _ => h.isName_ofKey hd
  have hperm := h.keys_perm (.refl (opened t.outside).disk.entries.keys)
  have hle (start : String) : (rows.keys.filter (startsWith start)).length ≤
      (opened t.outside).disk.entries.keys.length :=
    Nat.le_trans (List.length_filter_le ..) (hperm.length_eq ▸ List.length_filterMap_le ..)
  refine ⟨fun after limit hroom => ?_, fun decode pageSize budget hroom hbudget => ?_,
    fun m budget hroom hbudget => ?_⟩
  · obtain ⟨x, s, hrun, ⟨page, rfl, -⟩, -⟩ := ho.run_browsing h (Rows.page_completes hnames after hroom)
    exact ⟨page, congrArg Prod.fst hrun⟩
  · obtain ⟨x, s, hrun, ⟨report, rfl, hscanned⟩, -⟩ := ho.run_browsing h
      (Sweep.pass_completes decode hnames hroom (Nat.lt_of_le_of_lt (hle _) hbudget))
    refine ⟨report, congrArg Prod.fst hrun, hscanned.trans ?_⟩
    rw [qualifying, ← (hperm.filter _).length_eq]
    simp [isAfter]
  · obtain ⟨x, s, hrun, rfl, -⟩ := ho.run_browsing h
      (m.list_completes hroom (Nat.lt_of_le_of_lt (hle _) hbudget))
    refine ⟨m.listed rows, congrArg Prod.fst hrun, m.nodup_listed h.ascending, fun d => ?_⟩
    rw [Markers.mem_listed, ho.run_contains_iff h hd]

end Outside.OnDisk

/-- What scans of a directory give can be looked up exactly if it is tidy, and then it can be browsed,
whatever else is in it. -/
theorem Outside.OnDisk.enumerable_iff {σ : Type} {o : Outside σ} {f : FileStore}
    {opened : σ → Opened} (ho : o.OnDisk f opened) {t : Timeline σ}
    (hd : (opened t.outside).disk.Sound) :
    (Enumerable f (opened t.outside) ↔ (opened t.outside).disk.Tidy) ∧
      ((opened t.outside).disk.Tidy →
        Browsable o (opened t.outside).disk.entries.keys t) := by
  refine ⟨hd.enumerable_iff_tidy, fun ht => ?_⟩
  obtain ⟨rows, h⟩ := ht.exists_shows hd
  exact ho.browsable h hd

namespace Foreign

/-- A marker among what is none of the store's: a temporary file that was left, a file and directories
with names that are no key's, and a name that is no text. -/
def among : Opened :=
  ⟨⟨true, [(ofKey "refresh:did:a:b", .file (Utf8.encode "did:a:b")),
    (temporary "session:did:a:c" 7 0, .file []), (Utf8.encode "README", .file []),
    (Utf8.encode "lost+found", .directory), ([0xff], .directory)]⟩, 0⟩

theorem browsable_among : among.disk.Sound ∧ Enumerable ⟨7, fun _ => 0⟩ among ∧
    Browsable (Keepable.outside ⟨7, fun _ => 0⟩) among.disk.entries.keys (.start among false) := by
  have hascending : among.disk.entries.Ascending := by
    unfold Table.Ascending
    decide +kernel
  have hnames : ∀ name ∈ among.disk.entries.keys, name ≠ [] ∧ name.length ≤ maxName := by
    decide +kernel
  have hd : among.disk.Sound := ⟨rfl, hascending, hnames⟩
  obtain ⟨henumerable, hbrowsable⟩ :=
    (Keepable.onDisk ⟨7, fun _ => 0⟩).enumerable_iff (t := .start among false) hd
  have htidy : among.disk.Tidy := by decide +kernel
  exact ⟨hd, henumerable.mpr htidy, hbrowsable htidy⟩

def misspelt : Opened := ⟨⟨true, [(Utf8.encode "6A", .file (Utf8.encode "x"))]⟩, 0⟩

/-- The key is found, but it has no value. -/
theorem not_enumerable_misspelt :
    ¬ ∀ (f : FileStore) (s : Opened), s.disk.Sound → Enumerable f s := by
  intro hall
  have hnames : ∀ name ∈ misspelt.disk.entries.keys, name ≠ [] ∧ name.length ≤ maxName := by
    decide +kernel
  have hd : misspelt.disk.Sound := ⟨rfl, List.pairwise_singleton _ _, hnames⟩
  obtain ⟨keys, hscan, -, hget⟩ := hall ⟨7, fun _ => 0⟩ misspelt hd id (fun names => .refl names) "" none
    10 (by decide)
  have hfound : FileStore.answer? ⟨7, fun _ => 0⟩ id (.scan "" none 10) misspelt =
      (some (.ok ["j"]), misspelt) := rfl
  obtain rfl : ["j"] = keys :=
    Except.ok.inj (Option.some.inj (congrArg Prod.fst (hfound.symm.trans hscan)))
  obtain ⟨value, hvalue⟩ := hget "j" List.mem_cons_self
  have hmissing : FileStore.answer? ⟨7, fun _ => 0⟩ id (.get "j") misspelt =
      (some (.ok none), misspelt) := rfl
  cases hmissing.symm.trans hvalue

end Foreign

end Upkeep
