import Upkeep.Agent
import Upkeep.Proofs.Interleaving
import Upkeep.Proofs.Session.Restore

/-!
What is asked for in work on a session. An operation on a row asks for the key of the row and no other;
a restore besides looks at the clock and has a token granted; an acquisition attempts, waits and does
what its provider does. What keeps each of these requests to a rule keeps all of the work to it.
-/

namespace Upkeep

variable {rely : (r : Work.Request) → r.Reply → Prop} {safe : Work.Request → Prop}

namespace Work

theorem keepsOk_ok {α : Type} {post : α → Prop} {a : α} (h : post a) :
    (ok a).KeepsOk rely safe post := by
  intro b hb
  cases hb
  exact h

theorem keepsOk_fail {α : Type} {post : α → Prop} (f : Failure) :
    (fail f : Errand α).KeepsOk rely safe post :=
  fun _ h => nomatch h

/-- A call that is safe, with what its answer is relied on to be. -/
theorem keepsOk_call {c : Store.Call} (h : safe (.store c)) :
    (call c).KeepsOk rely safe fun a => rely (.store c) (.ok a) := by
  refine ⟨h, fun x hx => ?_⟩
  cases x with
  | error e => exact keepsOk_fail _
  | ok a => exact keepsOk_ok hx

end Work

namespace Rows

variable {d : Did}

theorem get_keepsOk (hget : safe (.store (.get (key d)))) :
    (get d).KeepsOk rely safe fun _ => True := by
  refine (Work.keepsOk_call hget).onSuccess fun current _ => ?_
  cases current with
  | none => exact Work.keepsOk_ok trivial
  | some bs =>
      dsimp only
      cases Record.decode bs with
      | error e => exact Work.keepsOk_fail _
      | ok r => exact Work.keepsOk_ok trivial

/-- What is put is made of what was found just before. -/
theorem put_keepsOk {b : Blob} (hnow : safe .now) (hget : safe (.store (.get (key d))))
    (hput : ∀ now (current : Option Bytes), rely (.store (.get (key d))) (.ok current) →
      safe (.store (.put (key d)
        (renew d b now (current.bind fun bs => (Record.decode bs).toOption)).encode))) :
    (put d b).KeepsOk rely safe fun _ => True :=
  ⟨hnow, fun now _ => (Work.keepsOk_call hget).onSuccess fun current hcurrent =>
    (Work.keepsOk_call (hput now current hcurrent)).onSuccess fun _ _ => Work.keepsOk_ok trivial⟩

/-- A row that is found with the blob is written over, with the expiry in place of its own. -/
theorem setExpiry_keepsOk {b : Blob} {t : UInt64} (hget : safe (.store (.get (key d))))
    (hset : ∀ bs r, rely (.store (.get (key d))) (.ok (some bs)) → Record.decode bs = .ok r →
      r.blob = b → safe (.store (.compareAndPut (key d) bs
        { r with expiresAt := some t : Record }.encode))) :
    (setExpiry d b t).KeepsOk rely safe fun _ => True := by
  refine (Work.keepsOk_call hget).onSuccess fun current hcurrent => ?_
  cases current with
  | none => exact Work.keepsOk_ok trivial
  | some bs =>
      dsimp only
      cases hdecode : Record.decode bs with
      | error e => exact Work.keepsOk_fail _
      | ok r =>
          dsimp only
          split
          next hb =>
            exact (Work.keepsOk_call (hset bs r hcurrent hdecode hb)).mono fun _ _ _ _ => trivial
          next => exact Work.keepsOk_ok trivial

end Rows

namespace Rotation

variable {ε : Type} (o : Rotation ε) {d : Did} (hnow : safe .now)
  (hexchange : ∀ g, safe (.exchange g)) (hget : safe (.store (.get (Rows.key d))))
  (hput : ∀ value, safe (.store (.put (Rows.key d) value)))

include hnow in
theorem needsRotation_keeps (b : Blob) : (o.needsRotation b).Keeps rely safe fun _ => True := by
  unfold needsRotation
  cases o.decode b with
  | error e => trivial
  | ok expiry => exact ⟨hnow, fun _ _ => trivial⟩

include hnow in
theorem expiryOf_keeps (t : Grant.Token) : (expiryOf t).Keeps rely safe fun _ => True := by
  unfold expiryOf
  split
  next => trivial
  next => exact ⟨hnow, fun _ _ => trivial⟩

include hnow hget hput in
theorem writeBack_keepsOk (v : Json) (t : Grant.Token) :
    (writeBack d v t).KeepsOk rely safe fun _ => True := by
  refine Program.Keeps.bind (expiryOf_keeps hnow t) fun expiry _ => ?_
  cases TokenSet.merge v t expiry with
  | none => exact Work.keepsOk_fail _
  | some b =>
      exact (Rows.put_keepsOk hnow hget fun _ _ _ => hput _).onSuccess
        fun _ _ => Work.keepsOk_ok trivial

include hnow hexchange hget hput in
theorem rotate_keepsOk (v : Json) (token : String) :
    (o.rotate d v token).KeepsOk rely safe fun _ => True := by
  rw [rotate_eq]
  refine ⟨hexchange _, fun reply _ => ?_⟩
  change ((grantResult (Grant.Reply.token reply)).onSuccess (writeBack d v)).KeepsOk rely safe _
  cases Grant.Reply.token reply with
  | error e => exact Work.keepsOk_fail _
  | ok t => exact writeBack_keepsOk hnow hget hput v t

include hnow hexchange hget hput in
theorem restoreRow_keepsOk (r : Record) (v set : Json) :
    (o.restoreRow d r v set).KeepsOk rely safe fun _ => True := by
  rw [restoreRow_eq]
  cases otherSubject? set d with
  | some subject => exact Work.keepsOk_fail _
  | none =>
      refine Program.Keeps.bind (o.needsRotation_keeps hnow r.blob) fun due _ => ?_
      unfold rotateIf
      cases due with
      | false => exact Work.keepsOk_ok trivial
      | true =>
          simp only [if_true]
          cases (set.get? "refresh_token").bind Json.text? with
          | none => exact Work.keepsOk_fail _
          | some token => exact o.rotate_keepsOk hnow hexchange hget hput v token

include hnow hexchange hget hput in
/-- A restore keeps to every rule that lets it read and write the row, look at the clock and have a
token granted. -/
theorem restore_keepsOk : (o.restore d).KeepsOk rely safe fun _ => True := by
  refine (Rows.get_keepsOk hget).onSuccess fun found _ => ?_
  cases found with
  | none => exact Work.keepsOk_ok trivial
  | some r =>
      dsimp only
      split
      next => exact Work.keepsOk_fail _
      next v _ =>
        split
        next => exact Work.keepsOk_fail _
        next set _ => exact o.restoreRow_keepsOk hnow hexchange hget hput r v set

end Rotation

/-- An acquisition keeps to every rule that lets it attempt and wait, if its provider does. -/
theorem Agent.obtain_keeps {provider : Provider} {d : Did} (hattempt : safe (.attempt d))
    (hsleep : ∀ span, safe (.sleep span)) (hprovider : (provider d).Keeps rely safe fun _ => True)
    (retry : Retry) : (obtain provider retry d).Keeps rely safe fun _ => True := by
  have hone : (attempt provider d).Keeps rely safe fun _ => True := by
    refine ⟨hattempt, fun _ _ => Program.Keeps.bind (p := provider d) hprovider fun x _ => ?_⟩
    rcases x with _ | _ | _ <;> trivial
  have hall (more : Nat) :
      (attempts provider retry.backoff d more).Keeps rely safe fun _ => True := by
    induction more with
    | zero => exact hone
    | succ more ih =>
        refine Program.Keeps.bind hone fun x _ => ?_
        cases x with
        | ok s => trivial
        | error e => exact ⟨hsleep _, fun _ _ => ih⟩
  refine Program.Keeps.bind (hall _) fun x _ => ?_
  cases x <;> trivial

end Upkeep
