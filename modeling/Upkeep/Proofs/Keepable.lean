import Upkeep.Proofs.Store.Backends
import Upkeep.Proofs.Store.OnDisk
import Upkeep.Session.Restore

/-!
Which identifiers a store in a directory can keep. The names of its files grow with the keys, twice as
fast, and those of temporary files are longer still.
-/

namespace Upkeep

open Store Files FileNames FileStore Timeline

namespace Did

def octets (d : Did) : Nat := (Utf8.encode d.text).length

theorem length_append (d : Did) (start : String) :
    (Utf8.encode (start ++ d.text)).length = (Utf8.encode start).length + d.octets := by
  rw [Utf8.encode_append, List.length_append, octets]

theorem length_append_pos (d : Did) {start : String} (hstart : (Utf8.encode start).length = 8) :
    0 < (Utf8.encode (start ++ d.text)).length := by
  rw [d.length_append, hstart]
  exact Nat.lt_of_lt_of_le (by decide) (Nat.le_add_right 8 _)

end Did

namespace Store.FileStore

/-- Whether the temporary file of the next write of a key may have its name. -/
def HasName (f : FileStore) (s : Opened) (key : String) : Prop :=
  (temporary key f.process.toNat s.serial.toNat).length ≤ maxName

section Names

variable {f : FileStore} {s : Opened} {key : String} (hne : 0 < (Utf8.encode key).length)

include hne

theorem isName_ofKey_of_le (hle : (ofKey key).length ≤ maxName) : IsName (ofKey key) := by
  refine ⟨fun heq => ?_, hle⟩
  have hlength := length_ofKey key
  rw [heq, List.length_nil] at hlength
  omega

theorem isName_of_hasName (h : f.HasName s key) : IsName (ofKey key) := by
  refine isName_ofKey_of_le hne (Nat.le_trans ?_ h)
  rw [length_temporary, length_ofKey]
  omega

end Names

def digits (f : FileStore) (s : Opened) : Nat :=
  (Nat.toDigits 10 f.process.toNat).length + (Nat.toDigits 10 s.serial.toNat).length

theorem digits_bounds (f : FileStore) (s : Opened) : 2 ≤ f.digits s ∧ f.digits s ≤ 20 :=
  ⟨Nat.add_le_add Nat.length_toDigits_pos Nat.length_toDigits_pos,
    Nat.add_le_add (length_toDigits_le f.process.toNat_lt) (length_toDigits_le s.serial.toNat_lt)⟩

theorem hasName_iff {f : FileStore} {s : Opened} {d : Did} {start : String}
    (hstart : (Utf8.encode start).length = 8) :
    f.HasName s (start ++ d.text) ↔ 2 * (8 + d.octets) + f.digits s + 6 ≤ maxName := by
  rw [HasName, length_temporary, d.length_append, hstart, digits, Nat.add_assoc (2 * _)]

end Store.FileStore

namespace Outside.OnDisk

variable {σ α : Type} {o : Outside σ} {f : FileStore} {opened : σ → Opened} {t : Timeline σ}
  {rows : Memory} (ho : o.OnDisk f opened) (hm : Mirrors (opened t.outside) rows) {d : Did}

include ho hm

theorem run_get {key : String} (hkey : IsName (ofKey key))
    (g : Except Failure (Option Bytes) → Work α) : ∃ s, opened s = opened t.outside ∧
      t.run o ((Work.get key).bind g) = (t.withOutside s).run o (g (.ok (rows.get? key))) := by
  obtain ⟨s, hs, hrun⟩ := ho.run_look (t := t) key g
  rw [hm.shows.found_read hkey] at hrun
  exact ⟨s, hs, hrun⟩

theorem run_get_long {key : String} (hlong : maxName < (ofKey key).length)
    (g : Except Failure (Option Bytes) → Work α) : ∃ s, opened s = opened t.outside ∧
      t.run o ((Work.get key).bind g) =
        (t.withOutside s).run o (g (.error (.store (.file .nameTooLong)))) := by
  obtain ⟨s, hs, hrun⟩ := ho.run_look (t := t) key g
  rw [Files.read, resolve_long hm.present hlong] at hrun
  exact ⟨s, hs, hrun⟩

theorem run_put {key : String} (hkey : IsName (ofKey key)) (hname : f.HasName (opened t.outside) key)
    (value : Bytes) (g : Except Failure Unit → Work α) : ∃ s, Mirrors (opened s) (rows.insert key value) ∧
      t.run o ((Work.put key value).bind g) = (t.withOutside s).run o (g (.ok ())) := by
  have htemp : IsName (temporary key f.process.toNat (opened t.outside).serial.toNat) :=
    ⟨temporary_ne_nil _ _ _, hname⟩
  obtain ⟨order, -, hreplies⟩ := ho.replies (.put key value) t.outside
  obtain ⟨s', hwrite, hm'⟩ := hm.run_write_of_isName order f hkey htemp value
  obtain ⟨hreply, rfl⟩ := hreplies _ _ ((run_locked order f key _ _).trans hwrite)
  exact ⟨_, hm', run_call_ok (c := .put key value) g hreply⟩

theorem run_put_long {key : String} (hname : ¬ f.HasName (opened t.outside) key)
    (value : Bytes) (g : Except Failure Unit → Work α) : ∃ s,
      (opened s).disk = (opened t.outside).disk ∧ t.run o ((Work.put key value).bind g) =
        (t.withOutside s).run o (g (.error (.store (.file .nameTooLong)))) := by
  obtain ⟨order, -, hreplies⟩ := ho.replies (.put key value) t.outside
  have hwrite := hm.run_write_long order f (Nat.not_le.mp hname) value
  obtain ⟨hreply, hstate⟩ := hreplies _ _ ((run_locked order f key _ _).trans hwrite)
  exact ⟨_, by rw [hstate], run_call_error (c := .put key value) g hreply⟩

/-- A key is looked up and then written, if its temporary file may have its name. -/
theorem run_look_and_put {key : String} (hne : 0 < (Utf8.encode key).length)
    (look : Option Bytes → Errand α) {value : Bytes} {a : α}
    (hlook : look (rows.get? key) = (Work.put key value).onSuccess fun () => Work.ok a) :
    ∃ x s, t.run o ((Work.get key).onSuccess look) = (x, t.withOutside s) ∧
      (f.HasName (opened t.outside) key → x = some (.ok a) ∧ Mirrors (opened s) (rows.insert key value)) ∧
      (¬ f.HasName (opened t.outside) key → x = some (.error (.store (.file .nameTooLong))) ∧
        (opened s).disk = (opened t.outside).disk) := by
  by_cases hlong : maxName < (ofKey key).length
  · obtain ⟨s, hs, hrun⟩ := ho.run_get_long hm hlong _
    refine ⟨_, s, hrun.trans (run_done _), fun hname => ?_, fun _ => ⟨rfl, by rw [hs]⟩⟩
    exact absurd (isName_of_hasName hne hname).2 (Nat.not_le.mpr hlong)
  · have hkey : IsName (ofKey key) := isName_ofKey_of_le hne (Nat.not_lt.mp hlong)
    obtain ⟨s, hs, hrun⟩ := ho.run_get hm hkey _
    have hm' : Mirrors (opened (t.withOutside s).outside) rows := by
      rw [← hs] at hm
      exact hm
    have hsame : f.HasName (opened (t.withOutside s).outside) key ↔
        f.HasName (opened t.outside) key := by
      rw [← hs]
      rfl
    by_cases hname : f.HasName (opened t.outside) key
    · obtain ⟨s', hmirrors, hput⟩ := ho.run_put hm' hkey (hsame.mpr hname) value _
      refine ⟨_, s', hrun.trans ?_, fun _ => ⟨rfl, hmirrors⟩, fun hno => absurd hname hno⟩
      refine (congrArg ((t.withOutside s).run o) hlook).trans (hput.trans (run_done _))
    · obtain ⟨s', hdisk, hput⟩ := ho.run_put_long hm' (mt hsame.mp hname) value _
      refine ⟨_, s', hrun.trans ?_, fun hyes => absurd hyes hname, fun _ => ⟨rfl, hdisk.trans ?_⟩⟩
      · exact (congrArg ((t.withOutside s).run o) hlook).trans (hput.trans (run_done _))
      · rw [← hs]
        rfl

/-- A listing of the markers finds them all. -/
theorem run_list (m : Markers) (hroom : hasRoom (max m.pageSize 1) = true) {budget : Nat}
    (hbudget : rows.keys.length < budget) :
    (t.run o (m.list budget)).1 = some (.ok (m.listed rows)) := by
  obtain ⟨x, s, hrun, hx, -⟩ := ho.run_browsing hm.shows
    (m.list_completes hroom (Nat.lt_of_le_of_lt (List.length_filter_le ..) hbudget))
  rw [hrun, hx]
  rfl

/-- A call to register an identifier that is not marked. -/
theorem run_register (m : Markers) (hstart : (Utf8.encode m.start).length = 8)
    (hmark : rows.get? (m.key d) = none) :
    ∃ x s, t.run o (m.register d) = (x, t.withOutside s) ∧
      (f.HasName (opened t.outside) (m.key d) →
        x = some (.ok true) ∧ Mirrors (opened s) (rows.insert (m.key d) (Utf8.encode d.text))) ∧
      (¬ f.HasName (opened t.outside) (m.key d) →
        x = some (.error (.store (.file .nameTooLong))) ∧
        (opened s).disk = (opened t.outside).disk) := by
  have hne : 0 < (Utf8.encode (m.key d)).length := d.length_append_pos hstart
  exact ho.run_look_and_put hm hne _ (by rw [hmark])

theorem run_contains (m : Markers) (hkey : IsName (ofKey (m.key d))) :
    ∃ s, t.run o (m.contains d) = (some (.ok (rows.get? (m.key d)).isSome), t.withOutside s) := by
  obtain ⟨s, -, hrun⟩ := ho.run_get hm hkey _
  exact ⟨s, hrun.trans (run_done _)⟩

/-- A call to store a session. -/
theorem run_putRow (d : Did) (b : Blob) :
    ∃ x s, t.run o (Rows.put d b) = (x, t.withOutside s) ∧
      (f.HasName (opened t.outside) (Rows.key d) → ∃ r : Record, x = some (.ok r) ∧
        Mirrors (opened s) (rows.insert (Rows.key d) r.encode)) ∧
      (¬ f.HasName (opened t.outside) (Rows.key d) →
        x = some (.error (.store (.file .nameTooLong))) ∧
        (opened s).disk = (opened t.outside).disk) := by
  have hne : 0 < (Utf8.encode (Rows.key d)).length := d.length_append_pos (by decide)
  obtain ⟨x, s, hrun, hyes, hno⟩ := ho.run_look_and_put hm hne (fun current =>
    let record := Rows.renew d b (o.now t.outside)
      (current.bind fun bs => (Record.decode bs).toOption)
    (Work.put (Rows.key d) record.encode).onSuccess fun () => Work.ok record) rfl
  exact ⟨x, s, (run_ask (r := .now) rfl).trans hrun, fun h => ⟨_, hyes h⟩, hno⟩

theorem run_getRow (hkey : IsName (ofKey (Rows.key d))) {r : Option Record}
    (hheld : rows.get? (Rows.key d) = r.map Record.encode) :
    ∃ s, t.run o (Rows.get d) = (some (.ok r), t.withOutside s) := by
  obtain ⟨s, -, hrun⟩ := ho.run_get hm hkey _
  refine ⟨s, hrun.trans ?_⟩
  rw [hheld]
  cases r with
  | none => exact run_done _
  | some r =>
      dsimp only [Option.map_some]
      rw [Record.decode_encode]
      exact run_done _

theorem run_getRow_long (hlong : maxName < (ofKey (Rows.key d)).length) :
    ∃ s, t.run o (Rows.get d) = (some (.error (.store (.file .nameTooLong))), t.withOutside s) := by
  obtain ⟨s, -, hrun⟩ := ho.run_get_long hm hlong _
  exact ⟨s, hrun.trans (run_done _)⟩

end Outside.OnDisk

section Restore

variable {σ ε : Type} {o : Outside σ} {t t' : Timeline σ} {d : Did} (ro : Rotation ε)

theorem Rotation.run_restore_absent (hget : t.run o (Rows.get d) = (some (.ok none), t')) :
    (t.run o (ro.restore d)).1 = some (.ok none) := by
  rw [restore, Program.onSuccess, run_bind_eq, hget]
  exact congrArg Prod.fst (run_done _)

theorem Rotation.run_restore_failed {e : Failure}
    (hget : t.run o (Rows.get d) = (some (.error e), t')) :
    (t.run o (ro.restore d)).1 = some (.error e) := by
  rw [restore, Program.onSuccess, run_bind_eq, hget]
  exact congrArg Prod.fst (run_done _)

end Restore

/-- An identifier that can be kept: marking it succeeds, and then it is marked and listed; its session
can be put and got back; and as long as it has none, that is what is got and restored. -/
structure Keepable {σ : Type} (o : Outside σ) (m : Markers) (budget : Nat) (d : Did)
    (t : Timeline σ) : Prop where
  registers : (t.run o (m.register d)).1 = some (.ok true)
  contains : ((t.run o (m.register d)).2.run o (m.contains d)).1 = some (.ok true)
  lists : ∃ ds, ((t.run o (m.register d)).2.run o (m.list budget)).1 = some (.ok ds) ∧ d ∈ ds
  puts : ∀ b, ∃ r, (t.run o (Rows.put d b)).1 = some (.ok r) ∧
    ((t.run o (Rows.put d b)).2.run o (Rows.get d)).1 = some (.ok (some r))
  absent : (t.run o (Rows.get d)).1 = some (.ok none)
  restores : ∀ {ε : Type} (ro : Rotation ε), (t.run o (ro.restore d)).1 = some (.ok none)

namespace Keepable

variable {σ : Type} {o : Outside σ} {f : FileStore} {opened : σ → Opened} {t : Timeline σ}
  {rows : Memory} {m : Markers} {budget : Nat} {d : Did}

/-- What it comes to that the names of the files are not too long. -/
theorem of_hasName (ho : o.OnDisk f opened) (hm : Mirrors (opened t.outside) rows)
    (hstart : (Utf8.encode m.start).length = 8) (hmark : rows.get? (m.key d) = none)
    (hrow : rows.get? (Rows.key d) = none) (hroom : hasRoom (max m.pageSize 1) = true)
    (hbudget : rows.keys.length + 1 < budget) (hmarker : f.HasName (opened t.outside) (m.key d))
    (hsession : f.HasName (opened t.outside) (Rows.key d)) : Keepable o m budget d t := by
  have hne : 0 < (Utf8.encode (m.key d)).length := d.length_append_pos hstart
  have hne' : 0 < (Utf8.encode (Rows.key d)).length := d.length_append_pos (by decide)
  obtain ⟨x, s, hregister, hyes, -⟩ := ho.run_register hm m hstart hmark
  obtain ⟨rfl, hmarked⟩ := hyes hmarker
  obtain ⟨s', hget⟩ := ho.run_getRow hm (isName_of_hasName hne' hsession) (r := none) hrow
  refine ⟨congrArg Prod.fst hregister, ?_, ?_, fun b => ?_, congrArg Prod.fst hget,
    fun ro => ro.run_restore_absent hget⟩
  · rw [hregister]
    obtain ⟨s₂, hcontains⟩ := ho.run_contains (t := t.withOutside s) hmarked m
      (isName_of_hasName hne hmarker)
    rw [hcontains, Table.get?_insert_self]
    rfl
  · rw [hregister]
    refine ⟨_, ho.run_list (t := t.withOutside s) hmarked m hroom ?_, ?_⟩
    · have hlength := ((Table.insert_perm (Table.get?_eq_none_iff.mp hmark)
        (Utf8.encode d.text)).map Prod.fst).length_eq
      rw [Table.keys, hlength, List.map_cons, List.length_cons]
      exact hbudget
    · rw [Markers.mem_listed]
      exact Table.mem_keys_insert.mpr (.inl rfl)
  · obtain ⟨y, s₂, hput, hyes, -⟩ := ho.run_putRow hm d b
    obtain ⟨r, rfl, hstored⟩ := hyes hsession
    refine ⟨r, congrArg Prod.fst hput, ?_⟩
    rw [hput]
    obtain ⟨s₃, hget⟩ := ho.run_getRow (t := t.withOutside s₂) hstored
      (isName_of_hasName hne' hsession) (r := some r) (Table.get?_insert_self ..)
    exact congrArg Prod.fst hget

/-- Which sessions can be looked up before any is put, and so restored. -/
theorem absent_iff (ho : o.OnDisk f opened) (hm : Mirrors (opened t.outside) rows)
    (hrow : rows.get? (Rows.key d) = none) :
    ((t.run o (Rows.get d)).1 = some (.ok none) ↔ d.octets ≤ 119) ∧
      ∀ {ε : Type} (ro : Rotation ε), (t.run o (ro.restore d)).1 = some (.ok none) ↔ d.octets ≤ 119 := by
  have hlength : (ofKey (Rows.key d)).length = 2 * (8 + d.octets) := by
    rw [length_ofKey, Rows.key, d.length_append]
    rfl
  have hle_iff : (ofKey (Rows.key d)).length ≤ maxName ↔ d.octets ≤ 119 := by
    rw [hlength, maxName]
    omega
  by_cases hle : d.octets ≤ 119
  · have hkey : IsName (ofKey (Rows.key d)) :=
      isName_ofKey_of_le (d.length_append_pos (by decide)) (hle_iff.mpr hle)
    obtain ⟨s', hget⟩ := ho.run_getRow hm hkey (r := none) hrow
    exact ⟨iff_of_true (congrArg Prod.fst hget) hle,
      fun ro => iff_of_true (ro.run_restore_absent hget) hle⟩
  · obtain ⟨s', hget⟩ := ho.run_getRow_long hm (Nat.not_le.mp (mt hle_iff.mp hle))
    refine ⟨iff_of_false (fun hnone => ?_) hle, fun ro => iff_of_false (fun hnone => ?_) hle⟩
    · rw [hget] at hnone
      cases hnone
    · rw [ro.run_restore_failed hget] at hnone
      cases hnone

/-- Which identifiers can be kept in a directory: those with a marker and a row whose temporary files
may have their names. That is all of up to 106 octets and none of more than 115. Any other is refused,
and nothing in the directory changes; beyond 119 octets it cannot even be looked up. -/
theorem iff_octets_le (ho : o.OnDisk f opened) (hm : Mirrors (opened t.outside) rows)
    (hspace : m.space = "refresh") (hmark : rows.get? (m.key d) = none)
    (hrow : rows.get? (Rows.key d) = none) (hroom : hasRoom (max m.pageSize 1) = true)
    (hbudget : rows.keys.length + 1 < budget) :
    (Keepable o m budget d t ↔ 2 * (8 + d.octets) + f.digits (opened t.outside) + 6 ≤ 255) ∧
      (d.octets ≤ 106 → Keepable o m budget d t) ∧ (115 < d.octets → ¬ Keepable o m budget d t) ∧
      (¬ Keepable o m budget d t → ∀ b,
        (∃ s, t.run o (m.register d) = (some (.error (.store (.file .nameTooLong))), t.withOutside s) ∧
          (opened s).disk = (opened t.outside).disk) ∧
        ∃ s, t.run o (Rows.put d b) = (some (.error (.store (.file .nameTooLong))), t.withOutside s) ∧
          (opened s).disk = (opened t.outside).disk) ∧
      ((t.run o (Rows.get d)).1 = some (.ok none) ↔ d.octets ≤ 119) ∧
      ∀ {ε : Type} (ro : Rotation ε), (t.run o (ro.restore d)).1 = some (.ok none) ↔ d.octets ≤ 119 := by
  have hstart : (Utf8.encode m.start).length = 8 := by
    rw [Markers.start, hspace]
    decide
  have hmarker : f.HasName (opened t.outside) (m.key d) ↔
      2 * (8 + d.octets) + f.digits (opened t.outside) + 6 ≤ 255 := hasName_iff hstart
  have hsession : f.HasName (opened t.outside) (Rows.key d) ↔
      2 * (8 + d.octets) + f.digits (opened t.outside) + 6 ≤ 255 := hasName_iff (by decide)
  obtain ⟨x, s, hregister, -, hrefused⟩ := ho.run_register hm m hstart hmark
  have hiff : Keepable o m budget d t ↔
      2 * (8 + d.octets) + f.digits (opened t.outside) + 6 ≤ 255 := by
    refine ⟨fun hkeepable => ?_, fun hle => of_hasName ho hm hstart hmark hrow hroom hbudget
      (hmarker.mpr hle) (hsession.mpr hle)⟩
    by_contra hno
    have hregisters := hkeepable.registers
    rw [hregister, (hrefused (mt hmarker.mp hno)).1] at hregisters
    cases hregisters
  obtain ⟨hdigits, hdigits'⟩ := f.digits_bounds (opened t.outside)
  refine ⟨hiff, fun hle => hiff.mpr (by omega), fun hlt => mt hiff.mp (by omega), fun hno b => ?_, ?_⟩
  · obtain ⟨rfl, hdisk⟩ := hrefused (mt (hiff.mpr ∘ hmarker.mp) hno)
    obtain ⟨y, s', hput, -, hrefused'⟩ := ho.run_putRow hm d b
    obtain ⟨rfl, hdisk'⟩ := hrefused' (mt (hiff.mpr ∘ hsession.mp) hno)
    exact ⟨⟨s, hregister, hdisk⟩, s', hput, hdisk'⟩
  · exact absent_iff ho hm hrow

def outside (f : FileStore) : Outside Opened where
  store c s := f.answer? id c s
  now _ := 1000
  exchange _ s := (Grant.Reply.unreachable, s)
  attempt _ _ s := s
  consult _ s := (⟨.zero, none⟩, s)
  ring _ s := (true, s)
  perform _ := .done ()
  insists _ _ _ := false

theorem onDisk (f : FileStore) : (outside f).OnDisk f id where
  answers _ _ := ⟨id, fun _ => .refl _, rfl⟩

def emptyDirectory : Timeline Opened := .start (FileStore.open ⟨true, []⟩) false

def long : Did := ⟨"did:a:" ++ String.ofList (List.replicate 114 'a'), by decide +kernel⟩

/-- Not every identifier can be kept. -/
theorem not_long : ¬ ∀ (d : Did) (o : Outside Opened) (f : FileStore) (t : Timeline Opened)
    (rows : Memory), o.OnDisk f id → Mirrors t.outside rows →
    rows.get? (Markers.key ⟨"refresh", 10⟩ d) = none → rows.get? (Rows.key d) = none →
    rows.keys.length + 1 < 10 → Keepable o ⟨"refresh", 10⟩ 10 d t := by
  intro hall
  have hkeepable := hall long (outside ⟨7, fun _ => 0⟩) ⟨7, fun _ => 0⟩ emptyDirectory [] (onDisk _)
    (mirrors_open true) rfl rfl (by decide)
  have hrefused : (emptyDirectory.run (outside ⟨7, fun _ => 0⟩)
      (Markers.register ⟨"refresh", 10⟩ long)).1.bind Except.toOption = none := by decide +kernel
  rw [hkeepable.registers] at hrefused
  cases hrefused

def longest : Did := ⟨"did:a:" ++ String.ofList (List.replicate 109 'a'), by decide +kernel⟩

theorem longest_kept : longest.octets = 115 ∧
    Keepable (outside ⟨7, fun _ => 0⟩) ⟨"refresh", 10⟩ 10 longest emptyDirectory := by
  have hm : Mirrors (id emptyDirectory.outside) [] := mirrors_open true
  have hoctets : longest.octets = 115 := by decide +kernel
  refine ⟨hoctets, (iff_octets_le (onDisk ⟨7, fun _ => 0⟩) hm rfl rfl rfl (by decide)
    (by decide)).1.mpr ?_⟩
  rw [hoctets]
  decide +kernel

end Keepable

end Upkeep
