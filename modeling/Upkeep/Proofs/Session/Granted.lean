import Upkeep.Proofs.Session.Repeat
import Upkeep.Proofs.Session.Restore
import Upkeep.Proofs.Store.Alone
import Upkeep.Proofs.Token.Expiry
import Upkeep.Proofs.Token.Grant

/-!
A rotation is decoded as what was granted. The expiry of a granted token goes through the blob, the
row that holds the blob and the text that states the time, and comes out of the decoder as the very
second it went in; the sweep writes that second into the row, and the next restore goes by it.
-/

namespace Upkeep

open Store

def Rows.Holds (m : Memory) (d : Did) (r : Record) : Prop :=
  ∃ bs, m.get? (Rows.key d) = some bs ∧ Record.decode bs = .ok r

theorem Rows.holds_insert (m : Memory) (d : Did) (r : Record) :
    Rows.Holds (m.insert (Rows.key d) r.encode) d r :=
  ⟨_, Table.get?_insert_self .., Record.decode_encode r⟩

/-- Whether the token in a blob is to be rotated at a time: its expiry is no more than the margin
away, or cannot be read. -/
def Rotation.IsDue {ε : Type} (o : Rotation ε) (b : Blob) (now : UInt64) : Prop :=
  ∀ x, o.decode b = .ok x → x.toNat ≤ min (now.toNat + o.margin.toNat) (2 ^ 64 - 1)

namespace Rotation

def Exchanges {ε : Type} (o : Rotation ε) (elsewhere : (r : Work.Request) → r.Reply) (m : Memory)
    (d : Did) : Prop :=
  ∃ g, Work.Request.exchange g ∈ (o.restore d).trace (Memory.alone elsewhere) m

section Restores

variable {ε : Type} (o : Rotation ε) (elsewhere : (r : Work.Request) → r.Reply) {now : UInt64}
  (hnow : elsewhere .now = now) {m : Memory} {d : Did}

theorem run_get {r : Record} (hrow : Rows.Holds m d r) :
    (Rows.get d).run (Memory.alone elsewhere) m = (some (.ok (some r)), m) := by
  obtain ⟨bs, hheld, hr⟩ := hrow
  rw [Rows.get, Program.run_onSuccess, Memory.run_get, hheld]
  dsimp only
  rw [hr]
  rfl

theorem trace_get (m : Memory) :
    (Rows.get d).trace (Memory.alone elsewhere) m = [.store (.get (Rows.key d))] := by
  rw [Rows.get, Program.onSuccess, Program.trace_bind, Memory.run_get]
  cases m.get? (Rows.key d) with
  | none => rfl
  | some bs =>
      dsimp only
      cases Record.decode bs <;> rfl

include hnow

theorem run_put {r : Record} (hrow : Rows.Holds m d r) (b : Blob) :
    (Rows.put d b).run (Memory.alone elsewhere) m =
      (some (.ok (Rows.renew d b now (some r))),
        m.insert (Rows.key d) (Rows.renew d b now (some r)).encode) := by
  obtain ⟨bs, hheld, hr⟩ := hrow
  rw [Rows.put, Memory.run_now, hnow, Program.run_onSuccess, Memory.run_get]
  dsimp only
  rw [hheld, Option.bind_some, hr, Program.run_onSuccess, Memory.run_put]
  rfl

/-- The decision asks for the time at most. -/
theorem needsRotation_asks (b : Blob) :
    ∃ due, (o.needsRotation b).run (Memory.alone elsewhere) m = (some due, m) ∧
      (∀ g, Work.Request.exchange g ∉ (o.needsRotation b).trace (Memory.alone elsewhere) m) ∧
      (due = true ↔ o.IsDue b now) := by
  unfold needsRotation IsDue
  cases hx : o.decode b with
  | error e => exact ⟨true, rfl, fun _ h => (nomatch h), fun _ _ h => (nomatch h), fun _ => rfl⟩
  | ok x =>
      refine ⟨decide (x ≤ saturatingAdd now o.margin), ?_,
        fun _ h => (nomatch List.mem_singleton.mp h), ?_⟩
      · dsimp only
        rw [Memory.run_now, hnow]
        rfl
      · rw [decide_eq_true_iff, le_saturatingAdd_iff]
        exact ⟨fun h x' hx' => Except.ok.inj hx' ▸ h, fun h => h x rfl⟩

/-- A restore over a row that can be refreshed sends a request for a token exactly when the token it
holds is due. -/
theorem restore_exchanges_iff {r : Record} (hrow : Rows.Holds m d r)
    (hb : Expiry.IsRefreshable d r.blob) :
    o.Exchanges elsewhere m d ↔ o.IsDue r.blob now := by
  obtain ⟨v, set, token, hv, -, hset, htoken, hsubject⟩ := hb
  obtain ⟨due, hrun, hquiet, hdue⟩ := o.needsRotation_asks elsewhere hnow (m := m) r.blob
  have htrace : (o.restore d).trace (Memory.alone elsewhere) m =
      .store (.get (Rows.key d)) :: ((o.needsRotation r.blob).trace (Memory.alone elsewhere) m ++
        (o.rotateIf d r v set due).trace (Memory.alone elsewhere) m) := by
    change ((Rows.get d).onSuccess (o.restoreFound d)).trace _ _ = _
    rw [Program.onSuccess, Program.trace_bind, trace_get, run_get elsewhere hrow]
    dsimp only
    rw [o.restoreFound_eq hv hset hsubject, Program.trace_bind, hrun]
    rfl
  rw [Exchanges, htrace, ← hdue, rotateIf, htoken]
  cases due with
  | true =>
      refine ⟨fun _ => rfl, fun _ => ⟨⟨o.clientId, token⟩, List.mem_cons_of_mem _ ?_⟩⟩
      exact List.mem_append_right _ List.mem_cons_self
  | false =>
      refine iff_of_false (fun hexchanges => ?_) Bool.false_ne_true
      obtain ⟨g, hg⟩ := hexchanges
      cases hg with
      | tail _ hg =>
          rcases List.mem_append.mp hg with hg | hg
          · exact hquiet g hg
          · cases hg

theorem run_writeBack {r : Record} (hrow : Rows.Holds m d r) {v : Json} {granted : Grant.Token}
    (hexpires : granted.expiresIn ≠ 0) {b : Blob}
    (hmerge : TokenSet.merge v granted (TokenSet.expiryOf now granted) = some b) :
    (writeBack d v granted).run (Memory.alone elsewhere) m =
      (some (.ok (some ⟨d, b⟩)), m.insert (Rows.key d) (Rows.renew d b now (some r)).encode) := by
  rw [writeBack, expiryOf, if_neg hexpires, Program.bind_assoc, Memory.run_now, hnow,
    Program.bind_done, hmerge, putMerged, Program.run_onSuccess, run_put elsewhere hnow hrow]
  rfl

/-- When the token is due and another one is granted, a restore writes what it is merged into. -/
theorem run_restore {r : Record} (hrow : Rows.Holds m d r) {v set : Json} {token : String}
    (hv : Json.parse r.blob.text = .ok v) (hset : TokenSet.of? v = some set)
    (htoken : set.get? "refresh_token" = some (.text token)) (hsubject : otherSubject? set d = none)
    (hdue : o.IsDue r.blob now) {granted : Grant.Token}
    (hreply : Grant.Reply.token (elsewhere (.exchange ⟨o.clientId, token⟩)) = .ok granted)
    (hexpires : granted.expiresIn ≠ 0) {b : Blob}
    (hmerge : TokenSet.merge v granted (TokenSet.expiryOf now granted) = some b) :
    (o.restore d).run (Memory.alone elsewhere) m =
      (some (.ok (some ⟨d, b⟩)), m.insert (Rows.key d) (Rows.renew d b now (some r)).encode) := by
  obtain ⟨due, hrun, -, hiff⟩ := o.needsRotation_asks elsewhere hnow (m := m) r.blob
  have hrotate : (o.rotateIf d r v set due) = o.rotate d v token := by
    rw [rotateIf, if_pos (hiff.mpr hdue), htoken]
    rfl
  change ((Rows.get d).onSuccess (o.restoreFound d)).run _ _ = _
  rw [Program.run_onSuccess, run_get elsewhere hrow]
  dsimp only
  rw [o.restoreFound_eq hv hset hsubject, Program.run_bind, hrun]
  dsimp only
  rw [hrotate, rotate_eq, Program.run_bind]
  change ((grantResult (Grant.Reply.token (elsewhere (.exchange ⟨o.clientId, token⟩)))).onSuccess
    (writeBack d v)).run _ m = _
  rw [hreply]
  exact run_writeBack elsewhere hnow hrow hexpires hmerge

end Restores

end Rotation

/-- A row that is filed under its own identifier has the expiry of its blob after a pass. -/
theorem Sweep.holds_of_fresh {ε : Type} {decode : Decoder ε} {m m' : Memory} {r : Record}
    {x : UInt64} (hrow : Rows.Holds m r.did r) (hx : decode r.blob = .ok x)
    (hrefreshes : Refreshes decode m m') (hfresh : Fresh decode m' (Rows.key r.did)) :
    Rows.Holds m' r.did { r with expiresAt := some x } := by
  obtain ⟨bs, hheld, hr⟩ := hrow
  rcases hrefreshes.row (Rows.key r.did) with
    hsame | ⟨_, bs', hheld', hafter, r', x', hr', hx', hbs'⟩
  · have hafter : m'.get? (Rows.key r.did) = some bs := hsame.trans hheld
    have hexpires : r.expiresAt = some x := by
      by_contra hne
      exact hfresh bs r x hafter (examine_eq_outdated.mpr ⟨hr, hx, hne⟩) rfl
    exact ⟨bs, hafter, hr.trans (by rw [← hexpires])⟩
  · cases hheld.symm.trans hheld'
    cases hr.symm.trans hr'
    cases hx.symm.trans hx'
    exact ⟨bs', hafter, hbs' ▸ Record.decode_encode _⟩

namespace Rotation

theorem isDue_iff {ε : Type} {o : Rotation ε} {b : Blob} {x : UInt64} (hx : o.decode b = .ok x)
    (now : UInt64) : o.IsDue b now ↔ x.toNat ≤ min (now.toNat + o.margin.toNat) (2 ^ 64 - 1) :=
  ⟨fun h => h x hx, fun h _ hx' => Except.ok.inj (hx.symm.trans hx') ▸ h⟩

/-- A token that is granted at the time `now` for so many seconds. The restored session is what the
row holds; its blob is decoded as the second until which the token was granted; a pass right after
stores that second in the row; and before the pass as after it, another restore sends a request for
a token exactly when that second is no more than the margin away. -/
theorem restore_keeps_granted_expiry {o : Rotation Expiry.Error}
    (hdecode : o.decode = Expiry.decoder) {elsewhere : (r : Work.Request) → r.Reply}
    {now : UInt64} (hnow : elsewhere .now = now)
    {m : Memory} (hm : Table.Ascending m) {d : Did} {r : Record} (hrow : Rows.Holds m d r)
    {v set : Json} {token : String} (hv : Json.parse r.blob.text = .ok v)
    (hboth : ¬ TokenSet.HasBoth v) (hset : TokenSet.of? v = some set)
    (htoken : set.get? "refresh_token" = some (.text token)) (hsubject : otherSubject? set d = none)
    (hdue : o.IsDue r.blob now) {status : Nat} {body : Bytes} {granted : Grant.Token}
    (hreply : elsewhere (.exchange ⟨o.clientId, token⟩) = .response status body)
    (hstatus : Http.isSuccess status = true) (hbody : Grant.Token.decode body = .ok granted)
    (hexpires : 0 < granted.expiresIn)
    (hlast : now.toNat + granted.expiresIn.toNat ≤ 253402300799) (pageSize : Nat) {budget : Nat}
    (hbudget : (Rows.ofStore m).length / max pageSize 1 < budget) :
    ∃ b m₁ r₁ x, (o.restore d).run (Memory.alone elsewhere) m = (some (.ok (some ⟨d, b⟩)), m₁) ∧
      Rows.Holds m₁ d r₁ ∧ r₁.did = d ∧ r₁.blob = b ∧
      Expiry.decoder b = .ok x ∧ x.toNat = now.toNat + granted.expiresIn.toNat ∧
      ∀ elsewhere', ∃ report m₂, (Sweep.pass o.decode pageSize budget).run
          (Memory.alone elsewhere') m₁ = (some (.ok report), m₂) ∧
        Rows.Holds m₂ d { r₁ with expiresAt := some x } ∧
        ∀ (later : (r : Work.Request) → r.Reply) (now' : UInt64), later .now = now' →
          ∀ m' ∈ [m₁, m₂], (o.Exchanges later m' d ↔ now.toNat + granted.expiresIn.toNat ≤
            min (now'.toNat + o.margin.toNat) (2 ^ 64 - 1)) := by
  have hpos : granted.expiresIn ≠ 0 := fun h => UInt64.lt_irrefl _ (h ▸ hexpires)
  have htoken' : Grant.Reply.token (elsewhere (.exchange ⟨o.clientId, token⟩)) = .ok granted := by
    rw [hreply, Grant.Reply.token, if_pos hstatus, hbody]
  have hrefreshable : Expiry.IsRefreshable d r.blob :=
    ⟨v, set, token, hv, hboth, hset, htoken, hsubject⟩
  obtain ⟨b, hmerge, hb, hx⟩ := hrefreshable.merge hv hpos hlast
  have hsum : (saturatingAdd now granted.expiresIn).toNat =
      now.toNat + granted.expiresIn.toNat :=
    toNat_saturatingAdd (Nat.lt_of_le_of_lt hlast (by decide))
  have hrestore :=
    o.run_restore elsewhere hnow hrow hv hset htoken hsubject hdue htoken' hpos hmerge
  let r₁ := Rows.renew d b now (some r)
  let m₁ := m.insert (Rows.key d) r₁.encode
  have hrow₁ : Rows.Holds m₁ d r₁ := Rows.holds_insert m d r₁
  refine ⟨b, m₁, r₁, _, hrestore, hrow₁, rfl, rfl, hx, hsum, fun elsewhere' => ?_⟩
  -- the pass finds as many rows as were there before the restore
  have hkeys : Table.keys m₁ = Table.keys m := by
    obtain ⟨bs, hheld, -⟩ := hrow
    exact Table.keys_insert_of_mem _ hm (List.mem_map_of_mem (Table.mem_of_get? hheld))
  obtain ⟨report, m₂, hpass, hrefreshes, hfresh⟩ := Sweep.pass_fresh o.decode elsewhere'
    (Table.ascending_insert _ _ hm) pageSize (Rows.length_ofStore_congr hkeys ▸ hbudget)
  have hx' : o.decode b = .ok (saturatingAdd now granted.expiresIn) := hdecode ▸ hx
  have hrow₂ := Sweep.holds_of_fresh (r := r₁) hrow₁ hx' hrefreshes
    (hfresh _ (startsWith_append _ _))
  refine ⟨report, m₂, hpass, hrow₂, fun later now' hlater m' hm' => ?_⟩
  have hexchanges (r' : Record) (hrow' : Rows.Holds m' d r') (hblob : r'.blob = b) :
      o.Exchanges later m' d ↔ now.toNat + granted.expiresIn.toNat ≤
        min (now'.toNat + o.margin.toNat) (2 ^ 64 - 1) := by
    rw [o.restore_exchanges_iff later hlater hrow' (hblob ▸ hb), hblob, isDue_iff hx', hsum]
  rcases List.mem_cons.mp hm' with rfl | hm'
  · exact hexchanges r₁ hrow₁ rfl
  · rw [List.mem_singleton] at hm'
    subst hm'
    exact hexchanges _ hrow₂ rfl

def granting (now : UInt64) (token : Grant.Token) : (r : Work.Request) → r.Reply
  | .now => now
  | .exchange _ => .response 200 (Utf8.encode token.render)
  | r => Memory.nobody r

/-- A token that expired long ago is rotated, and the new one lasts for an hour. -/
theorem restore_keeps_granted_expiry_hour :
    let o : Rotation Expiry.Error := ⟨"client", 60, Expiry.decoder⟩
    let d : Did := ⟨"did:a:a", by decide⟩
    let set : Json := .object [("expires_at", .number (.natural 5)), ("refresh_token", .text "old")]
    let v : Json := .object [(TokenSet.readKey, set)]
    let granted : Grant.Token := ⟨"access", some "new", 3600, none⟩
    let elsewhere := granting 1000 granted
    let r : Record := ⟨d, ⟨v.render⟩, 1, 2, none⟩
    let m : Memory := [(Rows.key d, r.encode)]
    o.IsDue r.blob 1000 ∧
      ∃ b m₁ r₁ x, (o.restore d).run (Memory.alone elsewhere) m = (some (.ok (some ⟨d, b⟩)), m₁) ∧
        Rows.Holds m₁ d r₁ ∧ r₁.did = d ∧ r₁.blob = b ∧ Expiry.decoder b = .ok x ∧ x.toNat = 4600 ∧
        ∀ elsewhere', ∃ report m₂, (Sweep.pass o.decode 1 2).run (Memory.alone elsewhere') m₁ =
            (some (.ok report), m₂) ∧
          Rows.Holds m₂ d { r₁ with expiresAt := some x } ∧
          ∀ (later : (r : Work.Request) → r.Reply) (now' : UInt64), later .now = now' →
            ∀ m' ∈ [m₁, m₂],
              (o.Exchanges later m' d ↔ 4600 ≤ min (now'.toNat + 60) (2 ^ 64 - 1)) := by
  intro o d set v granted elsewhere r m
  have hset : Json.Readable 126 set := by
    refine .object (List.pairwise_pair.mpr (by decide)) fun p hp => ?_
    rcases List.mem_cons.mp hp with rfl | hp
    · exact .number trivial
    · rw [List.mem_singleton.mp hp]
      exact .text "old"
  have hv : Json.parse v.render = .ok v := by
    refine Json.parse_render (.object (List.pairwise_singleton _ _) fun p hp => ?_)
    rw [List.mem_singleton.mp hp]
    exact hset
  have hdue : o.IsDue r.blob 1000 := by
    have hdecode (b : Blob) : o.decode b = Expiry.decoder b := rfl
    have hv : Json.parse r.blob.text = .ok v := hv
    have hx : o.decode r.blob = .ok 5 := by
      rw [hdecode, Expiry.decoder, hv]
      rfl
    exact (isDue_iff hx 1000).mpr (by decide)
  have hrow : Rows.Holds m d r := ⟨r.encode, if_pos rfl, Record.decode_encode r⟩
  have hbudget : (Rows.ofStore m).length / max 1 1 < 2 := by
    have hrows : Rows.ofStore m = m := Rows.ofStore_singleton (startsWith_append _ _) _
    rw [hrows]
    decide
  have hboth : ¬ TokenSet.HasBoth v := fun hboth => Bool.false_ne_true hboth.2
  exact ⟨hdue, restore_keeps_granted_expiry rfl rfl (List.pairwise_singleton _ _) hrow hv hboth
    rfl rfl rfl hdue rfl rfl (Grant.Token.decode_render granted) (by decide) (by decide) 1 hbudget⟩

end Rotation

end Upkeep
