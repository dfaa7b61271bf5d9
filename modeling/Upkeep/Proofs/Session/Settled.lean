import Upkeep.Proofs.Session.Record
import Upkeep.Proofs.Store.Scan
import Upkeep.Session.Sweep

/-!
What there is to find in the rows of a store, and what a pass makes of them: a row whose expiry is not
that of its blob is given it, and all others stay. On the way some rows are as the pass leaves them
and the others as they were.
-/

namespace Upkeep

open Store

def Rows.ofStore (m : Memory) : List (String × Bytes) := m.filter fun row => startsWith start row.1

namespace Rows

theorem mem_of_ofStore {m : Memory} {row : String × Bytes} (h : row ∈ ofStore m) : row ∈ m :=
  (List.mem_filter.mp h).1

theorem keys_ofStore (m : Memory) :
    (ofStore m).map Prod.fst = m.keys.filter (startsWith start) := by
  rw [ofStore, Table.keys, List.filter_map]
  rfl

theorem keys_ofStore_congr {m m' : Memory} (h : m'.keys = m.keys) :
    (ofStore m').map Prod.fst = (ofStore m).map Prod.fst := by
  rw [keys_ofStore, keys_ofStore, h]

theorem length_ofStore_congr {m m' : Memory} (h : m'.keys = m.keys) :
    (ofStore m').length = (ofStore m).length := by
  rw [← List.length_map Prod.fst, keys_ofStore_congr h, List.length_map]

theorem ofStore_singleton {key : String} (h : startsWith start key = true) (bs : Bytes) :
    ofStore [(key, bs)] = [(key, bs)] :=
  List.filter_cons_of_pos h

end Rows

namespace Sweep

inductive Finding (ε : Type) where
  | failed (c : Cause ε)
  | current
  /-- The blob of the row decodes to an expiry that the row does not have. -/
  | outdated (r : Record) (expiry : UInt64)

namespace Finding

variable {ε : Type}

def cause? : Finding ε → Option (Cause ε)
  | .failed c => some c
  | .current | .outdated .. => none

def isOutdated : Finding ε → Bool
  | .outdated .. => true
  | .failed _ | .current => false

end Finding

variable {ε : Type} (decode : Decoder ε)

def examine (bs : Bytes) : Finding ε :=
  match Record.decode bs with
  | .error e => .failed (.unreadable e)
  | .ok r =>
    match decode r.blob with
    | .error e => .failed (.undecodable e)
    | .ok expiry => if r.expiresAt = some expiry then .current else .outdated r expiry

def failure? (row : String × Bytes) : Option (String × Cause ε) :=
  (examine decode row.2).cause?.map fun c => (row.1, c)

def isOutdated (row : String × Bytes) : Bool := (examine decode row.2).isOutdated

/-- What a row holds after a pass: a row that is out of date has its expiry changed, and nothing else. -/
def settled (bs : Bytes) : Bytes :=
  match examine decode bs with
  | .outdated r expiry => { r with expiresAt := some expiry : Record }.encode
  | .failed _ | .current => bs

def settle (m : Memory) : Memory :=
  m.map fun row => if startsWith Rows.start row.1 then (row.1, settled decode row.2) else row

variable {decode} in
theorem examine_eq_outdated {bs : Bytes} {r : Record} {t : UInt64} :
    examine decode bs = .outdated r t ↔
      Record.decode bs = .ok r ∧ decode r.blob = .ok t ∧ r.expiresAt ≠ some t := by
  rw [examine]
  cases hdecode : Record.decode bs with
  | error e => simp
  | ok r' =>
      dsimp only
      cases hblob : decode r'.blob with
      | error e =>
          simp only [reduceCtorEq, false_iff]
          rintro ⟨hr, ht, -⟩
          rw [← Except.ok.inj hr, hblob] at ht
          cases ht
      | ok t' =>
          dsimp only
          by_cases hexpiry : r'.expiresAt = some t'
          · simp only [if_pos hexpiry, reduceCtorEq, false_iff]
            rintro ⟨hr, ht, hne⟩
            rw [← Except.ok.inj hr] at ht hne
            exact hne (hexpiry.trans (congrArg some (Except.ok.inj (hblob.symm.trans ht))))
          · simp only [if_neg hexpiry, Finding.outdated.injEq, Except.ok.injEq]
            constructor
            · rintro ⟨rfl, rfl⟩
              exact ⟨rfl, hblob, hexpiry⟩
            · rintro ⟨rfl, ht, -⟩
              exact ⟨rfl, Except.ok.inj (hblob.symm.trans ht)⟩

/-- A row that a pass has gone through is not written again. -/
theorem settled_settled (bs : Bytes) : settled decode (settled decode bs) = settled decode bs := by
  cases hfound : examine decode bs with
  | failed | current =>
      have hsame : settled decode bs = bs := by rw [settled, hfound]
      rw [hsame, hsame]
  | outdated r t =>
      obtain ⟨-, hblob, -⟩ := examine_eq_outdated.mp hfound
      have hnew : settled decode bs = { r with expiresAt := some t : Record }.encode := by
        rw [settled, hfound]
      have hcurrent : examine decode { r with expiresAt := some t : Record }.encode = .current := by
        simp only [examine, Record.decode_encode, hblob, if_true]
      rw [hnew, settled, hcurrent]

/-- A row keeps its identifier when a pass goes through it. -/
theorem did_of_settled {bs : Bytes} {r : Record} (h : Record.decode (settled decode bs) = .ok r) :
    ∃ r', Record.decode bs = .ok r' ∧ r'.did = r.did := by
  cases hfound : examine decode bs with
  | failed | current =>
      rw [settled, hfound] at h
      exact ⟨r, h, rfl⟩
  | outdated r' t =>
      rw [settled, hfound] at h
      dsimp only at h
      rw [Record.decode_encode] at h
      rw [← Except.ok.inj h]
      exact ⟨r', (examine_eq_outdated.mp hfound).1, rfl⟩

/-! A store while a pass is under way. -/

/-- A store in which the rows of some keys have been gone through. -/
def settleOn (gone : List String) (m : Memory) : Memory :=
  m.map fun row => if row.1 ∈ gone then (row.1, settled decode row.2) else row

section SettleOn

variable {m : Memory} (gone : List String)

theorem keys_settleOn : (settleOn decode gone m).keys = m.keys := by
  rw [settleOn, Table.keys, List.map_map]
  refine List.map_congr_left fun row _ => ?_
  rw [Function.comp_apply]
  split <;> rfl

theorem ascending_settleOn (hm : Table.Ascending m) :
    Table.Ascending (settleOn decode gone m) := by
  rw [Table.ascending_iff_keys, keys_settleOn]
  exact Table.ascending_iff_keys.mp hm

theorem get?_settleOn (key : String) :
    (settleOn decode gone m).get? key =
      if key ∈ gone then (m.get? key).map (settled decode) else m.get? key := by
  induction m with
  | nil => simp [settleOn]
  | cons row m ih =>
      have htail : settleOn decode gone (row :: m) =
          (row.1, if row.1 ∈ gone then settled decode row.2 else row.2) :: settleOn decode gone m := by
        rw [settleOn, List.map_cons]
        split <;> rfl
      rw [htail]
      by_cases hk : key = row.1
      · subst hk
        by_cases hgone : row.1 ∈ gone <;> simp [Table.get?, hgone]
      · simpa [Table.get?, hk] using ih

variable {gone} in
theorem get?_settleOn_of_not_mem {key : String} (h : key ∉ gone) :
    (settleOn decode gone m).get? key = m.get? key := by
  rw [get?_settleOn, if_neg h]

theorem settleOn_settleOn (gone' : List String) :
    settleOn decode gone' (settleOn decode gone m) = settleOn decode (gone ++ gone') m := by
  rw [settleOn, settleOn, List.map_map]
  refine List.map_congr_left fun row _ => ?_
  rw [Function.comp_apply]
  by_cases hgone : row.1 ∈ gone <;> by_cases hgone' : row.1 ∈ gone' <;>
    simp [hgone, hgone', settled_settled]

/-- Rows are under the keys of their identifiers as before. -/
theorem own_settleOn
    (hown : ∀ row ∈ Rows.ofStore m, ∀ r, Record.decode row.2 = .ok r → row.1 = Rows.key r.did) :
    ∀ row ∈ Rows.ofStore (settleOn decode gone m), ∀ r, Record.decode row.2 = .ok r →
      row.1 = Rows.key r.did := by
  intro row hrow r hr
  obtain ⟨hmem, hstart⟩ := List.mem_filter.mp hrow
  obtain ⟨row', hrow', rfl⟩ := List.mem_map.mp hmem
  by_cases hgone : row'.1 ∈ gone
  · rw [if_pos hgone] at hstart hr ⊢
    obtain ⟨r', hr', hdid⟩ := did_of_settled decode hr
    rw [← hdid]
    exact hown row' (List.mem_filter.mpr ⟨hrow', hstart⟩) r' hr'
  · rw [if_neg hgone] at hstart hr ⊢
    exact hown row' (List.mem_filter.mpr ⟨hrow', hstart⟩) r hr

theorem settleOn_nil : settleOn decode [] m = m := by
  simp [settleOn]

/-- A row whose bytes a pass keeps makes no difference. -/
theorem settleOn_append_of_settled {key : String} {bs : Bytes} (hm : Table.Ascending m)
    (hrow : (key, bs) ∈ m) (h : settled decode bs = bs) :
    settleOn decode (gone ++ [key]) m = settleOn decode gone m := by
  refine List.map_congr_left fun row hmem => ?_
  by_cases hk : row.1 = key
  · have hbs : row = (key, bs) := Table.eq_of_mem hm hmem hrow hk
    subst hbs
    simp [h]
  · simp [hk]

theorem insert_settleOn {key : String} {bs : Bytes} (hm : Table.Ascending m)
    (hrow : (key, bs) ∈ m) :
    Table.insert (settleOn decode gone m) key (settled decode bs) =
      settleOn decode (gone ++ [key]) m := by
  have hmem : key ∈ (settleOn decode gone m).keys := by
    rw [keys_settleOn]
    exact List.mem_map_of_mem hrow
  rw [Table.insert_of_mem _ (ascending_settleOn decode _ hm) hmem, settleOn, List.map_map]
  refine List.map_congr_left fun row hmem => ?_
  rw [Function.comp_apply]
  by_cases hk : row.1 = key
  · have hbs : row = (key, bs) := Table.eq_of_mem hm hmem hrow hk
    subst hbs
    by_cases hgone : key ∈ gone <;> simp [hgone]
  · by_cases hgone : row.1 ∈ gone <;> simp [hgone, hk]

/-- When all rows have been gone through, the store is as a pass leaves it. -/
theorem settleOn_eq_settle {gone : List String}
    (h : ∀ key, key ∈ gone ↔ key ∈ (Rows.ofStore m).map Prod.fst) :
    settleOn decode gone m = settle decode m := by
  refine List.map_congr_left fun row hrow => ?_
  have hstart : row.1 ∈ gone ↔ startsWith Rows.start row.1 = true := by
    rw [h, Rows.keys_ofStore, List.mem_filter]
    exact and_iff_right (List.mem_map_of_mem hrow)
  simp only [hstart]

/-- A pass over a store in which some rows have been gone through leaves what it would have left. -/
theorem settle_settleOn {gone : List String}
    (hgone : ∀ key ∈ gone, key ∈ (Rows.ofStore m).map Prod.fst) :
    settle decode (settleOn decode gone m) = settle decode m := by
  rw [← settleOn_eq_settle decode (m := settleOn decode gone m) fun _ => Iff.rfl, settleOn_settleOn]
  refine settleOn_eq_settle decode fun key => ?_
  rw [Rows.keys_ofStore_congr (keys_settleOn decode gone), List.mem_append]
  exact or_iff_right_of_imp (hgone key)

end SettleOn

end Sweep

end Upkeep
