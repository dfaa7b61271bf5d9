import Upkeep.Proofs.Store.Reliable

/-!
The query for rows that expire soon, over a store that answers. It names the identifier of each row that
expires by its horizon, in the order of the rows and whatever the pages are: rows that cannot be read,
and pages of nothing else, hide none.
-/

namespace Upkeep

open Store

namespace Rows

def ExpiresBy (horizon : Nat) (row : String × Bytes) (d : Did) : Prop :=
  ∃ r t, Record.decode row.2 = .ok r ∧ r.expiresAt = some t ∧ t.toNat ≤ horizon ∧ r.did = d

/-- The identifiers of the rows of a table that expire by a horizon: one for each of those rows, in the
order of the keys. -/
def Expiring (m : Memory) (horizon : Nat) (due : List Did) : Prop :=
  ∃ rows, rows.Sublist m ∧
    (∀ row ∈ m, row ∈ rows ↔ startsWith start row.1 = true ∧ ∃ d, ExpiresBy horizon row d) ∧
    List.Forall₂ (ExpiresBy horizon) rows due

variable {now span : UInt64}

private theorem expiresBy_of_record? {row : String × Bytes} {r : Record} (hr : record? row = some r)
    (hexpires : Sweep.expiresBy (saturatingAdd now span) r = true) :
    ExpiresBy (min (now.toNat + span.toNat) (2 ^ 64 - 1)) row r.did := by
  obtain ⟨t, ht, hle⟩ := expiresBy_iff.mp hexpires
  exact ⟨r, t, record?_eq_some.mp hr, ht, hle, rfl⟩

private theorem any_record?_iff {row : String × Bytes} :
    (record? row).any (Sweep.expiresBy (saturatingAdd now span)) = true ↔
      ∃ d, ExpiresBy (min (now.toNat + span.toNat) (2 ^ 64 - 1)) row d := by
  rw [Option.any_eq_true]
  constructor
  · intro ⟨r, hr, hexpires⟩
    exact ⟨r.did, expiresBy_of_record? hr hexpires⟩
  · intro ⟨d, r, t, hdecode, ht, hle, hd⟩
    exact ⟨r, record?_eq_some.mpr hdecode, expiresBy_iff.mpr ⟨t, ht, hle⟩⟩

private theorem forall₂_dueBy (rows : List (String × Bytes)) :
    List.Forall₂ (ExpiresBy (min (now.toNat + span.toNat) (2 ^ 64 - 1)))
      (rows.filter fun row => (record? row).any (Sweep.expiresBy (saturatingAdd now span)))
      (dueBy (saturatingAdd now span) rows) := by
  induction rows with
  | nil => exact .nil
  | cons row rows ih =>
      rw [dueBy, List.filter_cons, List.filterMap_cons]
      cases hr : record? row with
      | none => exact ih
      | some r =>
          rw [Option.any_some, List.filter_cons]
          by_cases hexpires : Sweep.expiresBy (saturatingAdd now span) r = true
          · rw [if_pos hexpires, if_pos hexpires]
            exact .cons (expiresBy_of_record? hr hexpires) ih
          · rw [if_neg hexpires, if_neg hexpires]
            exact ih

/-- Who is due are those of the rows that expire by the horizon. -/
theorem expiring_dueBy (m : Memory) :
    Expiring m (min (now.toNat + span.toNat) (2 ^ 64 - 1))
      (dueBy (saturatingAdd now span) (ofStore m)) := by
  refine ⟨_, ?_, ?_, forall₂_dueBy (ofStore m)⟩
  · exact List.filter_sublist.trans List.filter_sublist
  · intro row hrow
    rw [List.mem_filter, any_record?_iff, ofStore, List.mem_filter, and_iff_right hrow]

theorem dueBy_sublist {horizon horizon' : UInt64} (h : horizon ≤ horizon')
    (rows : List (String × Bytes)) : (dueBy horizon rows).Sublist (dueBy horizon' rows) := by
  apply List.Sublist.map
  apply List.monotone_filter_right
  intro r hexpires
  revert hexpires
  simp only [Sweep.expiresBy]
  cases r.expiresAt with
  | none => exact id
  | some t => simpa using fun ht => UInt64.le_trans ht h

theorem succeeds_read (keys : List String) : Work.Succeeds (read keys) := by
  induction keys with
  | nil => exact Work.succeeds_ok _
  | cons key keys ih =>
      apply (Work.succeeds_call (.get key)).onSuccess
      intro current
      cases current with
      | none => exact ih
      | some bs =>
          apply ih.onSuccess
          intro (records, corrupt)
          dsimp only
          cases Record.decode bs with
          | ok r => exact Work.succeeds_ok _
          | error e => exact Work.succeeds_ok _

theorem succeeds_page (after : Option String) (limit : Nat) : Work.Succeeds (page after limit) := by
  apply (Work.succeeds_call (.scan start after (max limit 1))).onSuccess
  intro keys
  apply (succeeds_read keys).onSuccess
  intro (records, corrupt)
  exact Work.succeeds_ok _

end Rows

namespace Sweep

theorem succeeds_expiringFrom (horizon : UInt64) (pageSize budget : Nat) (cursor : Option String) :
    Work.Succeeds (expiringFrom horizon pageSize budget cursor) := by
  induction budget generalizing cursor with
  | zero => trivial
  | succ budget ih =>
      apply (Rows.succeeds_page cursor pageSize).onSuccess
      intro page
      dsimp only
      cases page.next with
      | none => exact Work.succeeds_ok _
      | some key =>
          apply (ih (some key)).onSuccess
          intro rest
          exact Work.succeeds_ok _

/-- The query is exact. What it names does not depend on the pages, and comes of looks at the store alone;
a later time or a longer span adds to it and takes nothing away. -/
theorem expiring_exact {σ : Type} {answer : Program.Answers work σ} {held : σ → Memory}
    (h : Reliable answer held) {m : Memory} (hm : Table.Ascending m) :
    ∃ due : UInt64 → UInt64 → List Did,
      (∀ now lookahead, Rows.Expiring m (min (now.toNat + lookahead.toNat) (2 ^ 64 - 1))
        (due now lookahead)) ∧
      (∀ now lookahead pageSize budget s, held s = m → (Rows.ofStore m).length < budget →
        ∃ s', (expiring now lookahead pageSize budget).run answer s =
            (some (.ok (due now lookahead)), s') ∧ held s' = m ∧
          ∀ r ∈ (expiring now lookahead pageSize budget).trace answer s, r.Looks) ∧
      ∀ now now' lookahead lookahead', now ≤ now' → lookahead ≤ lookahead' →
        (due now lookahead).Sublist (due now' lookahead') := by
  refine ⟨fun now lookahead => Rows.dueBy (saturatingAdd now lookahead) (Rows.ofStore m),
    fun now lookahead => Rows.expiring_dueBy m, ?_, ?_⟩
  · intro now lookahead pageSize budget s hs hbudget
    subst hs
    obtain ⟨due, s', hrun, hdue, hheld, hlooks⟩ := h.run_looking hm
      (expiring_steady hm now lookahead pageSize hbudget) (succeeds_expiringFrom _ pageSize budget none)
      fun r x hturn => hturn.steady
    rw [hdue] at hrun
    exact ⟨s', hrun, hheld, hlooks⟩
  · intro now now' lookahead lookahead' hnow hlookahead
    apply Rows.dueBy_sublist
    have hhorizon := le_saturatingAdd_iff.mp (UInt64.le_refl (saturatingAdd now lookahead))
    rw [UInt64.le_iff_toNat_le] at hnow hlookahead
    apply le_saturatingAdd_iff.mpr
    omega

def named : Did := ⟨"did:a:b", rfl⟩

/-- A row that cannot be read, and two that are filed under other identifiers than they name. -/
def mixed : Memory :=
  [("session:did:a:a", []), ("session:did:a:c", (⟨named, ⟨""⟩, 1, 1, some 5⟩ : Record).encode),
    ("session:did:a:d", (⟨named, ⟨""⟩, 1, 1, some 6⟩ : Record).encode)]

/-- Of these rows one expires in time. -/
theorem expiring_exact_mixed : Table.Ascending mixed ∧ Rows.Expiring mixed 5 [named] := by
  have hmixed : Table.Ascending mixed := by
    rw [Table.ascending_iff_keys]
    decide
  obtain ⟨due, hexpiring, hrun, -⟩ := expiring_exact (Memory.reliable_alone Memory.nobody) hmixed
  obtain ⟨s', hdue, -⟩ := hrun 2 3 1 4 mixed rfl (by decide)
  have hnamed : ((expiring 2 3 1 4).run (Memory.alone Memory.nobody) mixed).1 = some (.ok [named]) := by
    rfl
  rw [hdue] at hnamed
  have heq : due 2 3 = [named] := Except.ok.inj (Option.some.inj hnamed)
  exact ⟨hmixed, heq ▸ hexpiring 2 3⟩

end Sweep

end Upkeep
