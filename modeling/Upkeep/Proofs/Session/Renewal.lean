import Upkeep.Proofs.Session.Record
import Upkeep.Proofs.Session.Restore
import Upkeep.Proofs.Store.Memory
import Upkeep.Proofs.Timeline
import Upkeep.Proofs.Token.Expiry
import Upkeep.Proofs.Token.Grant
import Upkeep.Caretaker

/-!
Restores on a timeline whose surroundings tend one session: its row is read and written without
fail, and every grant says that the token lasts longer than the margin. Such a restore ends at once
with a token that lasts longer than the margin from then on.
-/

namespace Upkeep

def Store.Call.Changes (key : String) : Store.Call → Prop
  | .put key' _ | .compareAndPut key' .. | .delete key' => key' = key
  | _ => False

def Work.Request.Changes (d : Did) : Work.Request → Prop
  | .store c => c.Changes (Rows.key d)
  | _ => False

/-- Surroundings that tend the session of an identifier. `row` is what its row holds in a state;
`honored` says that every grant so far was what was hoped for. -/
structure Outside.Tends {σ : Type} (o : Outside σ) (d : Did) (margin : UInt64)
    (row : σ → Option Bytes) (honored : σ → Prop) : Prop where
  get : ∀ s, (o.store (.get (Rows.key d)) s).1 = some (.ok (row s))
  put : ∀ bs s, (o.store (.put (Rows.key d) bs) s).1 = some (.ok ()) ∧
    row (o.store (.put (Rows.key d) bs) s).2 = some bs
  /-- What is not written to the row leaves it as it is. -/
  row_eq : ∀ (r : Work.Request) t, ¬ r.Changes d →
    row (Timeline.perform o r t).timeline.outside = row t.outside
  /-- Nothing that is asked takes any time on the clock. -/
  now_eq : ∀ r t, o.now (Timeline.perform o r t).timeline.outside = o.now t.outside
  honored_before : ∀ r t, honored (Timeline.perform o r t).timeline.outside → honored t.outside
  /-- A grant that was honored has a token that lasts longer than the margin, and ends before the
  year 10000. -/
  grant : ∀ g s, honored (o.exchange g s).2 → ∃ t, Grant.Reply.token (o.exchange g s).1 = .ok t ∧
    margin < t.expiresIn ∧ (o.now s).toNat + t.expiresIn.toNat ≤ Rfc3339.lastPlainSecond

structure Desk where
  rows : Store.Memory
  clock : UInt64

def Outside.granting (token : Grant.Token) (perform : Chore → Work Unit) : Outside Desk where
  store c s :=
    let (reply, rows) := Store.Memory.answer c s.rows
    (some reply, { s with rows := rows })
  now s := s.clock
  exchange _ s := (.response 200 (Utf8.encode token.render), s)
  attempt _ _ s := s
  consult _ s := (⟨.zero, none⟩, s)
  ring _ s := (true, s)
  perform := perform
  insists _ _ _ := false

theorem Outside.granting_tends {d : Did} {margin : UInt64} {token : Grant.Token}
    (hlong : margin < token.expiresIn) (perform : Chore → Work Unit) :
    (Outside.granting token perform).Tends d margin (fun s => s.rows.get? (Rows.key d))
      fun s => s.clock.toNat + token.expiresIn.toNat ≤ Rfc3339.lastPlainSecond := by
  have hclock (r : Work.Request) (t : Timeline Desk) :
      (Timeline.perform (granting token perform) r t).timeline.outside.clock = t.outside.clock := by
    cases r with
    | after => exact congrArg Desk.clock (Timeline.outside_addShot ..)
    | every => exact congrArg Desk.clock (Timeline.outside_addTicker ..)
    | _ => rfl
  exact
    { get := fun _ => rfl
      put := fun bs s => ⟨rfl, Table.get?_insert_self ..⟩
      row_eq := fun r t hr => by
        cases r with
        | store c =>
            cases c with
            | scan | get => rfl
            | put => exact Table.get?_insert_of_ne _ _ (Ne.symm hr)
            | compareAndPut key expected value =>
                simp only [Timeline.perform, granting, Store.Memory.answer, Timeline.withOutside,
                  Store.Memory.compareAndPut]
                split
                · exact Table.get?_insert_of_ne _ _ (Ne.symm hr)
                · rfl
            | delete => exact Table.get?_erase_of_ne _ (Ne.symm hr)
        | after =>
            exact congrArg (fun s : Desk => s.rows.get? (Rows.key d)) (Timeline.outside_addShot ..)
        | every =>
            exact congrArg (fun s : Desk => s.rows.get? (Rows.key d)) (Timeline.outside_addTicker ..)
        | _ => rfl
      now_eq := hclock
      honored_before := fun r t hh => hclock r t ▸ hh
      grant := fun _ s hh => ⟨token, Grant.Reply.token_response token, hlong, hh⟩ }

def Rows.IsRefreshable (d : Did) (held : Option Bytes) : Prop :=
  ∃ bs r, held = some bs ∧ Record.decode bs = .ok r ∧ Expiry.IsRefreshable d r.blob

def Rows.Expires (held : Option Bytes) (x : UInt64) : Prop :=
  ∃ bs r, held = some bs ∧ Record.decode bs = .ok r ∧ Expiry.decoder r.blob = .ok x

/-- A state with a token that lasts longer than the margin, at the time of the state before. -/
structure Outside.Renewed {σ : Type} (o : Outside σ) (d : Did) (margin : UInt64)
    (row : σ → Option Bytes) (before after : σ) : Prop where
  now_eq : o.now after = o.now before
  isRefreshable : Rows.IsRefreshable d (row after)
  lasts : ∃ x, Rows.Expires (row after) x ∧ (o.now before).toNat + margin.toNat < x.toNat

theorem Outside.Renewed.after {σ : Type} {o : Outside σ} {d : Did} {margin : UInt64}
    {row : σ → Option Bytes} {before mid after : σ} (h : o.Renewed d margin row mid after)
    (hnow : o.now mid = o.now before) : o.Renewed d margin row before after :=
  ⟨h.now_eq.trans hnow, h.isRefreshable, hnow ▸ h.lasts⟩

theorem Rows.blob_renew (d : Did) (b : Blob) (now : UInt64) (prior : Option Record) :
    (Rows.renew d b now prior).blob = b := by
  cases prior <;> rfl

namespace Timeline

section Parts

variable {σ α β : Type} (o : Outside σ) (t : Timeline σ)

theorem drive_onSuccess {ε : Type} {p : Work (Except ε α)} {a : α} {t t' : Timeline σ}
    (h : drive o p t = (.done (.ok a), t')) (f : α → Work (Except ε β)) :
    drive o (p.onSuccess f) t = drive o (f a) t' :=
  drive_bind_done o h _

theorem drive_call {c : Store.Call} {a : c.Answer} (h : (o.store c t.outside).1 = some (.ok a)) :
    drive o (Work.call c) t = (.done (.ok a), t.withOutside (o.store c t.outside).2) := by
  have hp : t.perform o (.store c) =
      atOnce (r := .store c) (.ok a) (t.withOutside (o.store c t.outside).2) := by
    simp only [perform, h, atOnce]
    rfl
  rw [show drive o (Work.call c) t = _ from drive_atOnce o hp]
  exact drive_done o ..

theorem drive_now (f : UInt64 → Work α) :
    drive o (Work.now.bind f) t = drive o (f (o.now t.outside)) t :=
  drive_atOnce o (r := .now) rfl

theorem drive_expiryOf {token : Grant.Token} (h : token.expiresIn ≠ 0) :
    drive o (Rotation.expiryOf token) t = (.done (TokenSet.expiryOf (o.now t.outside) token), t) := by
  rw [Rotation.expiryOf, if_neg h, drive_now, drive_done]

/-- A token that is left alone lasts longer than the margin. -/
theorem drive_needsRotation {ε : Type} (ro : Rotation ε) (b : Blob) :
    ∃ due, drive o (ro.needsRotation b) t = (.done due, t) ∧ (due = false →
      ∃ x, ro.decode b = .ok x ∧ (o.now t.outside).toNat + ro.margin.toNat < x.toNat) := by
  unfold Rotation.needsRotation
  cases hx : ro.decode b with
  | error e => exact ⟨true, drive_done o .., fun h => nomatch h⟩
  | ok x =>
      refine ⟨_, (drive_now o t _).trans (drive_done o ..), fun h => ⟨x, rfl, ?_⟩⟩
      exact lt_of_saturatingAdd_lt (UInt64.not_le.mp (of_decide_eq_false h))

end Parts

end Timeline

namespace Outside.Tends

open Timeline

variable {σ : Type} {o : Outside σ} {d : Did} {margin : UInt64} {row : σ → Option Bytes}
  {honored : σ → Prop} (ho : o.Tends d margin row honored)

include ho

theorem now_drive {α : Type} (p : Work α) (t : Timeline σ) :
    o.now (drive o p t).2.outside = o.now t.outside :=
  (drive_keeps o (fun t t' => o.now t'.outside = o.now t.outside) (fun _ => rfl)
    (fun _ _ _ h h' => h'.trans h) (fun _ => True) (fun r t _ => ho.now_eq r t)
    p.keeps_true t).1

theorem honored_of_drive {α : Type} {p : Work α} {t : Timeline σ}
    (h : honored (drive o p t).2.outside) : honored t.outside :=
  (drive_keeps o (fun t t' => honored t'.outside → honored t.outside) (fun _ => id)
    (fun _ _ _ h h' => h ∘ h') (fun _ => True) (fun r t _ => ho.honored_before r t)
    p.keeps_true t).1 h

/-- A call of the store that does not fail takes no time and, if it does not write the row, leaves
the row as it is. -/
theorem drive_read {c : Store.Call} {a : c.Answer} {t : Timeline σ}
    (h : (o.store c t.outside).1 = some (.ok a)) (hc : ¬ c.Changes (Rows.key d)) :
    ∃ s, drive o (Work.call c) t = (.done (.ok a), t.withOutside s) ∧ row s = row t.outside ∧
      o.now s = o.now t.outside :=
  ⟨_, drive_call o t h, ho.row_eq (.store c) t hc, ho.now_eq (.store c) t⟩

theorem drive_get {t : Timeline σ} {bs : Bytes} {r : Record} (hrow : row t.outside = some bs)
    (hr : Record.decode bs = .ok r) :
    ∃ s, drive o (Rows.get d) t = (.done (.ok (some r)), t.withOutside s) ∧
      row s = row t.outside ∧ o.now s = o.now t.outside := by
  obtain ⟨s, hdrive, hs⟩ := ho.drive_read (c := .get (Rows.key d)) (ho.get t.outside) id
  refine ⟨s, ?_, hs⟩
  rw [Rows.get, drive_onSuccess o (p := Work.get (Rows.key d)) hdrive, hrow]
  dsimp only
  rw [hr]
  exact drive_done o ..

theorem drive_put {t : Timeline σ} (b : Blob) :
    ∃ s r, drive o (Rows.put d b) t = (.done (.ok r), t.withOutside s) ∧
      row s = some r.encode ∧ r.blob = b ∧ o.now s = o.now t.outside := by
  obtain ⟨s₁, hread, -, hnow₁⟩ := ho.drive_read (c := .get (Rows.key d)) (ho.get t.outside) id
  let prior := (row t.outside).bind fun bs => (Record.decode bs).toOption
  let r := Rows.renew d b (o.now t.outside) prior
  obtain ⟨hwrite, hrow⟩ := ho.put r.encode s₁
  refine ⟨(o.store (.put (Rows.key d) r.encode) s₁).2, r, ?_, hrow, ?_, ?_⟩
  · rw [Rows.put, drive_now, drive_onSuccess o (p := Work.get (Rows.key d)) hread]
    exact (drive_onSuccess o (p := Work.put (Rows.key d) r.encode)
      (drive_call o (t.withOutside s₁) hwrite) _).trans (drive_done o ..)
  · exact Rows.blob_renew ..
  · exact (ho.now_eq (.store (.put (Rows.key d) r.encode)) (t.withOutside s₁)).trans hnow₁

theorem drive_writeBack {t : Timeline σ} {b : Blob} (hb : Expiry.IsRefreshable d b) {v : Json}
    (hv : Json.parse b.text = .ok v) {token : Grant.Token} (hlong : margin < token.expiresIn)
    (hlast : (o.now t.outside).toNat + token.expiresIn.toNat ≤ Rfc3339.lastPlainSecond) :
    ∃ s session, drive o (Rotation.writeBack d v token) t =
        (.done (.ok (some session)), t.withOutside s) ∧
      o.Renewed d margin row t.outside s := by
  have hpos : token.expiresIn ≠ 0 := fun h => by
    rw [h] at hlong
    exact absurd (UInt64.lt_iff_toNat_lt.mp hlong) (Nat.not_lt_zero _)
  obtain ⟨b', hmerge, hb', hdecode⟩ := hb.merge hv hpos hlast
  obtain ⟨s, r, hput, hrow, hblob, hnow⟩ := ho.drive_put (t := t) b'
  have hdrive : drive o (Rotation.writeBack d v token) t =
      (.done (.ok (some ⟨d, b'⟩)), t.withOutside s) := by
    rw [Rotation.writeBack, drive_bind_done o (drive_expiryOf o t hpos), hmerge, Rotation.putMerged,
      drive_onSuccess o hput]
    exact drive_done o ..
  refine ⟨s, _, hdrive, hnow, ⟨_, r, hrow, Record.decode_encode r, hblob ▸ hb'⟩, _,
    ⟨_, r, hrow, Record.decode_encode r, hblob ▸ hdecode⟩, ?_⟩
  rw [toNat_saturatingAdd (Nat.lt_of_le_of_lt hlast (by decide))]
  exact Nat.add_lt_add_left (UInt64.lt_iff_toNat_lt.mp hlong) _

/-- A rotation whose grant was honored writes a token that lasts longer than the margin. -/
theorem drive_rotate {ro : Rotation Expiry.Error} {t : Timeline σ} {b : Blob}
    (hb : Expiry.IsRefreshable d b) {v : Json} (hv : Json.parse b.text = .ok v) (token : String)
    (hh : honored (drive o (ro.rotate d v token) t).2.outside) :
    ∃ s session, drive o (ro.rotate d v token) t = (.done (.ok (some session)), t.withOutside s) ∧
      o.Renewed d margin row t.outside s := by
  let g : Grant.Request := ⟨ro.clientId, token⟩
  let s₁ := (o.exchange g t.outside).2
  have hask : drive o (ro.rotate d v token) t = drive o ((Rotation.grantResult
      (Grant.Reply.token (o.exchange g t.outside).1)).onSuccess (Rotation.writeBack d v))
      (t.withOutside s₁) := by
    rw [Rotation.rotate_eq]
    exact drive_atOnce o (r := .exchange g) rfl
  rw [hask] at hh ⊢
  obtain ⟨granted, hreply, hlong, hlast⟩ := ho.grant g t.outside (ho.honored_of_drive hh)
  have hnow : o.now s₁ = o.now t.outside := ho.now_eq (.exchange g) t
  rw [← hnow] at hlast
  obtain ⟨s, session, hdrive, hs⟩ :=
    ho.drive_writeBack (t := t.withOutside s₁) hb hv hlong hlast
  rw [hreply]
  exact ⟨s, session, hdrive, hs.after hnow⟩

/-- A restore whose grants were honored ends at once, with a token that lasts longer than the
margin. -/
theorem drive_restore {ro : Rotation Expiry.Error} (hmargin : ro.margin = margin)
    (hdecode : ro.decode = Expiry.decoder) {t : Timeline σ}
    (hrow : Rows.IsRefreshable d (row t.outside))
    (hh : honored (drive o (ro.restore d) t).2.outside) :
    ∃ s session, drive o (ro.restore d) t = (.done (.ok (some session)), t.withOutside s) ∧
      o.Renewed d margin row t.outside s := by
  obtain ⟨bs, r, hbs, hr, hb⟩ := hrow
  obtain ⟨s₁, hget, hrow₁, hnow₁⟩ := ho.drive_get hbs hr
  have hfound : drive o (ro.restore d) t = drive o (ro.restoreFound d (some r)) (t.withOutside s₁) :=
    drive_onSuccess o hget _
  obtain ⟨v, set, token, hv, hboth, hset, htoken, hsubject⟩ := hb
  have hrotate : ∀ due, ro.rotateIf d r v set due =
      if due then ro.rotate d v token else Work.ok (some r.session) := fun due => by
    rw [Rotation.rotateIf, htoken]
    rfl
  have hb : Expiry.IsRefreshable d r.blob := ⟨v, set, token, hv, hboth, hset, htoken, hsubject⟩
  obtain ⟨due, hneeds, hlasts⟩ := drive_needsRotation o (t.withOutside s₁) ro r.blob
  rw [hfound, ro.restoreFound_eq hv hset hsubject, drive_bind_done o hneeds, hrotate] at hh ⊢
  cases due with
  | true =>
      obtain ⟨s, session, hdrive, hs⟩ := ho.drive_rotate (t := t.withOutside s₁) hb hv token hh
      exact ⟨s, session, hdrive, hs.after hnow₁⟩
  | false =>
      obtain ⟨x, hx, hlt⟩ := hlasts rfl
      refine ⟨s₁, r.session, drive_done o .., hnow₁, ⟨bs, r, hrow₁.trans hbs, hr, hb⟩, x,
        ⟨bs, r, hrow₁.trans hbs, hr, hdecode ▸ hx⟩, ?_⟩
      rwa [hmargin, show o.now (t.withOutside s₁).outside = o.now t.outside from hnow₁] at hlt

theorem honored_of_drive_bind {α β : Type} {p : Work α} {f : α → Work β} {t : Timeline σ}
    (h : honored (drive o (p.bind f) t).2.outside) : honored (drive o p t).2.outside := by
  rw [drive_bind] at h
  generalize drive o p t = result at h ⊢
  obtain ⟨progress, t'⟩ := result
  cases progress with
  | done a => exact ho.honored_of_drive h
  | dead | asleep => exact h

section Agent

variable {ro : Rotation Expiry.Error} (hmargin : ro.margin = margin)
  (hdecode : ro.decode = Expiry.decoder) {t : Timeline σ} (hrow : Rows.IsRefreshable d (row t.outside))

include hmargin hdecode hrow

theorem drive_attempt (hh : honored (drive o (Agent.attempt ro.restore d) t).2.outside) :
    ∃ s session, drive o (Agent.attempt ro.restore d) t = (.done (.ok session), t.withOutside s) ∧
      o.Renewed d margin row t.outside s := by
  let s₁ := o.attempt d t.instant t.outside
  rw [Agent.attempt, drive_ask_bind o (r := .attempt d) (t := t) rfl] at hh ⊢
  have hrow₁ : row s₁ = row t.outside := ho.row_eq (.attempt d) t id
  obtain ⟨s, session, hdrive, hs⟩ := ho.drive_restore hmargin hdecode
    (t := t.withOutside s₁) (hrow₁ ▸ hrow) (ho.honored_of_drive_bind hh)
  refine ⟨s, session, ?_, hs.after (ho.now_eq (.attempt d) t)⟩
  rw [drive_bind_done o hdrive]
  exact drive_done o ..

theorem drive_attempts (backoff : Duration) (more : Nat)
    (hh : honored (drive o (Agent.attempts ro.restore backoff d more) t).2.outside) :
    ∃ s session, drive o (Agent.attempts ro.restore backoff d more) t =
        (.done (.ok session), t.withOutside s) ∧ o.Renewed d margin row t.outside s := by
  cases more with
  | zero => exact ho.drive_attempt hmargin hdecode hrow hh
  | succ more =>
      rw [Agent.attempts] at hh ⊢
      obtain ⟨s, session, hdrive, hs⟩ :=
        ho.drive_attempt hmargin hdecode hrow (ho.honored_of_drive_bind hh)
      refine ⟨s, session, ?_, hs⟩
      rw [drive_bind_done o hdrive]
      exact drive_done o ..

theorem drive_obtain (retry : Retry)
    (hh : honored (drive o (Agent.obtain ro.restore retry d) t).2.outside) :
    ∃ s agent, drive o (Agent.obtain ro.restore retry d) t = (.done (.ok agent), t.withOutside s) ∧
      o.Renewed d margin row t.outside s := by
  obtain ⟨s, session, hdrive, hs⟩ := ho.drive_attempts hmargin hdecode hrow retry.backoff
    (retry.maxAttempts - 1) (ho.honored_of_drive_bind hh)
  refine ⟨s, ⟨session⟩, ?_, hs⟩
  rw [Agent.obtain, drive_bind_done o hdrive]
  exact drive_done o ..

end Agent

end Outside.Tends

end Upkeep
