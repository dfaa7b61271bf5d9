import Upkeep.Proofs.Session.Isolation

/-!
What a pass finds. Alone with its store, a pass goes through every row once, whatever the size of its
pages: it reports the rows that it cannot read or decode, and writes those whose expiry is not that
of their blob.
-/

namespace Upkeep

open Store

namespace Sweep

variable {ε : Type}

/-- Whatever the size of its pages, a pass alone with its store comes to its end, reports every row
that is there, every row that it wrote, and every row that it could not read or decode, once; and it
changes nothing but the expiries that were out of date. -/
theorem pass_run (decode : Decoder ε) (elsewhere : (r : Work.Request) → r.Reply) {m : Memory}
    (hm : Table.Ascending m)
    (hown : ∀ row ∈ Rows.ofStore m, ∀ r, Record.decode row.2 = .ok r → row.1 = Rows.key r.did)
    (pageSize : Nat) {budget : Nat}
    (hbudget : (Rows.ofStore m).length / max pageSize 1 < budget) :
    ∃ report, (pass decode pageSize budget).run (Memory.alone elsewhere) m =
        (some (.ok report), settle decode m) ∧
      report.scanned = (Rows.ofStore m).length ∧
      report.updated = (Rows.ofStore m).countP (isOutdated decode) ∧
      report.failed.Perm ((Rows.ofStore m).filterMap (failure? decode)) := by
  obtain ⟨report, gone, s, hrun, h⟩ := pass_alone decode hm hown elsewhere pageSize hbudget
  have hfailed := h.failed
  rw [List.filterMap_nil, List.map_nil, List.append_nil, List.append_nil] at hfailed
  exact ⟨report, hrun, h.scanned, h.updated, hfailed⟩

/-- Pages of two rows over a row that is out of date, one whose blob cannot be decoded, one that
cannot be read, and a key that is no row's. -/
theorem pass_run_mixed :
    let decode : Decoder Unit := fun b => if b.text = "good" then .ok 7 else .error ()
    let d : Did := ⟨"did:a:b", by decide⟩
    let d' : Did := ⟨"did:a:c", by decide⟩
    let good : Record := ⟨d, ⟨"good"⟩, 1, 2, some 3⟩
    let bad : Record := ⟨d', ⟨"bad"⟩, 1, 2, none⟩
    let m : Memory := [("refresh:did:a:b", [0]), (Rows.key d, good.encode),
      (Rows.key d', bad.encode), ("session:x", [0x7b])]
    Table.Ascending m ∧
      (∀ row ∈ Rows.ofStore m, ∀ r, Record.decode row.2 = .ok r → row.1 = Rows.key r.did) ∧
      (Rows.ofStore m).length / max 2 1 < 2 ∧
      ∃ report, (pass decode 2 2).run (Memory.alone Memory.nobody) m =
          (some (.ok report), [("refresh:did:a:b", [0]),
            (Rows.key d, Record.encode ⟨d, ⟨"good"⟩, 1, 2, some 7⟩),
            (Rows.key d', bad.encode), ("session:x", [0x7b])]) ∧
        report.scanned = 3 ∧ report.updated = 1 ∧
        report.failed.Perm [(Rows.key d', .undecodable ()), ("session:x", .unreadable .endInObject)] := by
  intro decode d d' good bad m
  have hgood : examine decode good.encode = .outdated good 7 := by
    rw [examine, Record.decode_encode]
    rfl
  have hbad : examine decode bad.encode = .failed (.undecodable ()) := by
    rw [examine, Record.decode_encode]
    rfl
  have hread : Record.decode [0x7b] = .error .endInObject := rfl
  have hbroken : examine decode [0x7b] = .failed (.unreadable .endInObject) := by
    rw [examine, hread]
  have hmarker : startsWith Rows.start "refresh:did:a:b" = false := by decide
  have hx : startsWith Rows.start "session:x" = true := by decide
  have hkey : ∀ d, startsWith Rows.start (Rows.key d) = true := fun _ => startsWith_append _ _
  have hrows : Rows.ofStore m =
      [(Rows.key d, good.encode), (Rows.key d', bad.encode), ("session:x", [0x7b])] := by
    simp [m, Rows.ofStore, hmarker, hx, hkey]
  have hm : Table.Ascending m := by
    refine Table.ascending_iff_keys.mpr ?_
    change List.Pairwise (· < ·) ["refresh:did:a:b", "session:did:a:b", "session:did:a:c", "session:x"]
    decide
  have hown : ∀ row ∈ Rows.ofStore m, ∀ r, Record.decode row.2 = .ok r → row.1 = Rows.key r.did := by
    intro row hrow r hr
    rw [hrows] at hrow
    simp only [List.mem_cons, List.not_mem_nil, or_false] at hrow
    rcases hrow with rfl | rfl | rfl
    · dsimp only at hr
      rw [Record.decode_encode] at hr
      rw [← Except.ok.inj hr]
    · dsimp only at hr
      rw [Record.decode_encode] at hr
      rw [← Except.ok.inj hr]
    · cases hread.symm.trans hr
  have hbudget : (Rows.ofStore m).length / max 2 1 < 2 := by
    rw [hrows]
    decide
  refine ⟨hm, hown, hbudget, ?_⟩
  obtain ⟨report, hrun, hscanned, hupdated, hfailed⟩ :=
    pass_run decode Memory.nobody hm hown 2 hbudget
  rw [hrows] at hscanned hupdated hfailed
  refine ⟨report, ?_, hscanned, ?_, ?_⟩
  · rw [hrun]
    simp [m, settle, settled, hmarker, hx, hkey, hgood, hbad, hbroken, good]
  · rw [hupdated]
    simp only [List.countP_cons, List.countP_nil, isOutdated, hgood, hbad, hbroken,
      Finding.isOutdated]
    rfl
  · simp only [List.filterMap_cons, List.filterMap_nil, failure?, hgood, hbad, hbroken,
      Finding.cause?, Option.map_some, Option.map_none] at hfailed
    exact hfailed

end Sweep

end Upkeep
