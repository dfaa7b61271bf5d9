import Upkeep.Proofs.Session.Record
import Upkeep.Proofs.Session.Sweep
import Upkeep.Proofs.Store.Shared

/-!
The expiry in a row belongs to the blob in it. Clients write blobs, delete rows and sweep, all at
once and in any order of their calls; no call is protected from the others, and any may fail. Still
no row ever has an expiry that was decoded from another blob than its own.
-/

namespace Upkeep

namespace Rows

variable {ε : Type}

/-- A row of the identifier whose expiry, if it has one, is what its blob decodes to. -/
def Owned (decode : Decoder ε) (d : Did) (bs : Bytes) : Prop :=
  ∃ r, Record.decode bs = .ok r ∧ r.did = d ∧ ∀ t, r.expiresAt = some t → decode r.blob = .ok t

/-- Values that a key may hold: any, unless it is the key of a row. -/
def Fit (decode : Decoder ε) (key : String) (bs : Bytes) : Prop :=
  ∀ d, key = Rows.key d → Owned decode d bs

theorem key_injective {d d' : Did} (h : key d = key d') : d = d' := by
  have h := congrArg String.toList h
  rw [key, key, String.toList_append, String.toList_append] at h
  have htext := String.toList_inj.mp (List.append_cancel_left h)
  cases d
  cases d'
  cases htext
  rfl

theorem fit_key {decode : Decoder ε} {d : Did} {bs : Bytes} :
    Fit decode (key d) bs ↔ Owned decode d bs :=
  ⟨fun h => h d rfl, fun h _ hd => key_injective hd ▸ h⟩

def Rely (decode : Decoder ε) : (r : Work.Request) → r.Reply → Prop
  | .store (.get key), .ok (some bs) => Fit decode key bs
  | _, _ => True

/-- What is written is fit, or as fit as what it replaces. -/
def Safe (decode : Decoder ε) : Work.Request → Prop
  | .store (.put key value) => Fit decode key value
  | .store (.compareAndPut key expected value) => Fit decode key expected → Fit decode key value
  | _ => True

variable {decode : Decoder ε}

/-! Operations. -/

theorem renew_owned {d : Did} (b : Blob) (now : UInt64) {prior : Option Record}
    (h : ∀ r, prior = some r → ∀ t, r.expiresAt = some t → decode r.blob = .ok t) :
    Owned decode d (renew d b now prior).encode := by
  refine ⟨_, Record.decode_encode _, ?_⟩
  cases prior with
  | none => exact ⟨rfl, fun t ht => nomatch ht⟩
  | some r =>
      refine ⟨rfl, fun t ht => ?_⟩
      dsimp only [renew] at ht ⊢
      split at ht
      next hb => exact hb ▸ h r rfl t ht
      next => cases ht

theorem put_keeps (d : Did) (b : Blob) :
    (put d b).KeepsOk (Rely decode) (Safe decode) fun _ => True := by
  refine put_keepsOk trivial trivial fun now current hcurrent => fit_key.mpr (renew_owned b now ?_)
  intro r hr t ht
  cases current with
  | none => cases hr
  | some bs =>
      have hfit : Fit decode (key d) bs := hcurrent
      obtain ⟨r', hdecode, -, hexpiry⟩ := fit_key.mp hfit
      simp only [Option.bind_some, hdecode, Except.toOption, Option.some.injEq] at hr
      subst hr
      exact hexpiry t ht

theorem delete_keeps (d : Did) : (delete d).KeepsOk (Rely decode) (Safe decode) fun _ => True :=
  (Work.keepsOk_call (c := .delete (key d)) trivial).mono fun _ _ _ _ => trivial

/-- An expiry is written only over the very row whose blob it was decoded from. -/
theorem setExpiry_keeps (d : Did) {b : Blob} {t : UInt64} (h : decode b = .ok t) :
    (setExpiry d b t).KeepsOk (Rely decode) (Safe decode) fun _ => True := by
  refine setExpiry_keepsOk trivial fun bs r hcurrent hdecode hb _ => fit_key.mpr ?_
  have hfit : Fit decode (key d) bs := hcurrent
  obtain ⟨r', hdecode', hdid, -⟩ := fit_key.mp hfit
  cases hdecode.symm.trans hdecode'
  refine ⟨_, Record.decode_encode _, hdid, fun t' ht => ?_⟩
  cases ht
  exact hb ▸ h

inductive Client (decode : Decoder ε) : Unit → Work Unit → Prop
  | put (d : Did) (b : Blob) : Client decode () ((Rows.put d b).bind fun _ => .done ())
  | delete (d : Did) : Client decode () ((Rows.delete d).bind fun _ => .done ())
  | sweep (pageSize budget : Nat) :
      Client decode () ((Sweep.pass decode pageSize budget).bind fun _ => .done ())

private theorem client_keeps {decode : Decoder ε} {k : Unit} {p : Work Unit}
    (h : Client decode k p) : p.Keeps (Rely decode) (Safe decode) fun _ => True := by
  cases h with
  | put d b => exact (put_keeps d b).bind fun _ _ => trivial
  | delete d => exact (delete_keeps d).bind fun _ _ => trivial
  | sweep pageSize budget =>
      exact (Sweep.pass_keepsOk (fun _ => trivial) (fun _ _ _ _ _ => trivial)
        (fun d _ _ h => setExpiry_keeps d h) budget).bind fun _ _ => trivial

private def AllFit (decode : Decoder ε) (m : Store.Memory) : Prop :=
  ∀ p ∈ m, Fit decode p.1 p.2

private theorem allFit_insert {decode : Decoder ε} {m : Store.Memory} (hm : AllFit decode m)
    {key : String} {value : Bytes} (h : Fit decode key value) :
    AllFit decode (Table.insert m key value) := by
  intro p hp
  rcases Table.mem_of_mem_insert hp with rfl | hp
  · exact h
  · exact hm p hp

/-- A call that is safe is answered as relied on, and leaves all values fit. -/
private theorem allFit_answer {decode : Decoder ε} {m : Store.Memory} (hm : AllFit decode m)
    {c : Store.Call} (hsafe : Safe decode (.store c)) :
    Rely decode (.store c) (Store.Memory.answer c m).1 ∧
      AllFit decode (Store.Memory.answer c m).2 := by
  cases c with
  | scan start after limit => exact ⟨trivial, hm⟩
  | get key =>
      refine ⟨?_, hm⟩
      cases hrow : Table.get? m key with
      | none =>
          simp only [Store.Memory.answer, hrow]
          trivial
      | some bs =>
          simp only [Store.Memory.answer, hrow]
          exact hm _ (Table.mem_of_get? hrow)
  | put key value => exact ⟨trivial, allFit_insert hm hsafe⟩
  | compareAndPut key expected value =>
      simp only [Store.Memory.answer, Store.Memory.compareAndPut]
      refine ⟨trivial, ?_⟩
      split
      next h => exact allFit_insert hm (hsafe (hm _ (Table.mem_of_get? h)))
      next => exact hm
  | delete key => exact ⟨trivial, fun p hp => hm p (Table.mem_of_mem_erase hp)⟩

/-- However many clients write, delete and sweep, and in whatever order their calls come: if no row
was there at first, every row is one of its identifier, and an expiry in it is that of its blob. -/
theorem owned_of_reachable (decode : Decoder ε) {m : Store.Memory}
    (hm : ∀ d, m.get? (key d) = none) {P : Pool Unit work Unit Store.Memory}
    (h : Pool.Reachable (fun _ => Store.Shared) (Client decode) ⟨m, []⟩ P) {d : Did} {bs : Bytes}
    (hrow : P.state.get? (key d) = some bs) :
    ∃ r, Record.decode bs = .ok r ∧ r.did = d ∧
      (r.expiresAt = none ∨ ∃ t, r.expiresAt = some t ∧ decode r.blob = .ok t) := by
  have hinv : AllFit decode P.state := by
    refine h.keeps (Rely decode) (Safe decode) (AllFit decode) ?_ (fun _ _ => client_keeps) ?_
    · intro _ r m x m' hm hsafe hstep
      cases hstep with
      | answered c => exact allFit_answer hm hsafe
      | failed c _ e =>
          refine ⟨?_, hm⟩
          cases c <;> trivial
      | elsewhere _ _ _ hr =>
          refine ⟨?_, hm⟩
          cases r with
          | store c => exact absurd rfl (hr c)
          | _ => trivial
    · intro p hp d hd
      refine absurd ?_ (Table.get?_eq_none_iff.mp (hm d))
      rw [← hd]
      exact List.mem_map_of_mem hp
  obtain ⟨r, hdecode, hdid, hexpiry⟩ := fit_key.mp (hinv _ (Table.mem_of_get? hrow))
  refine ⟨r, hdecode, hdid, ?_⟩
  cases ht : r.expiresAt with
  | none => exact .inl rfl
  | some t => exact .inr ⟨t, rfl, hexpiry t ht⟩

/-- A client writes a blob, and another one writes it again while a sweep writes its expiry. The row
keeps that expiry. -/
theorem owned_of_reachable_swept :
    let decode : Decoder Unit := fun b => .ok (UInt64.ofNat b.text.length)
    let d : Did := ⟨"did:a:b", by decide⟩
    let clients : List (Unit × Work Unit) := [((), (put d ⟨"blob"⟩).bind fun _ => .done ()),
      ((), (Sweep.pass decode 2 1).bind fun _ => .done ()),
      ((), (put d ⟨"blob"⟩).bind fun _ => .done ())]
    let P : Pool Unit work Unit Store.Memory :=
      [0, 0, 0, 1, 1, 2, 1, 1, 2, 2].foldl (Pool.turn (Store.Memory.alone Store.Memory.nobody))
        ⟨[], clients⟩
    Pool.Reachable (fun _ => Store.Shared) (Client decode) ⟨[], []⟩ P ∧
      ∃ bs r, P.state.get? (key d) = some bs ∧ Record.decode bs = .ok r ∧ r.did = d ∧
        ∃ t, r.expiresAt = some t ∧ decode r.blob = .ok t := by
  intro decode d clients P
  have hclients : Pool.Reachable (fun _ => Store.Shared) (Client decode) ⟨[], []⟩ ⟨[], clients⟩ :=
    ((Pool.Reachable.refl.step (.start (.put d ⟨"blob"⟩))).step (.start (.sweep 2 1))).step
      (.start (.put d ⟨"blob"⟩))
  have hreach : Pool.Reachable (fun _ => Store.Shared) (Client decode) ⟨[], []⟩ P :=
    hclients.turns (fun _ => Store.Memory.alone_shared Store.Memory.nobody) _
  let swept : Record := ⟨d, ⟨"blob"⟩, 0, 0, some 4⟩
  have hrow : P.state.get? (key d) = some swept.encode := by decide +kernel
  obtain ⟨r, hdecode, hdid, hexpiry⟩ := owned_of_reachable decode (fun _ => rfl) hreach hrow
  have hsome : r.expiresAt = some 4 := by
    cases hdecode.symm.trans (Record.decode_encode swept)
    rfl
  rcases hexpiry with hnone | howned
  · cases hsome.symm.trans hnone
  · exact ⟨hreach, _, r, hrow, hdecode, hdid, howned⟩

end Rows

end Upkeep
