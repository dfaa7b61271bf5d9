import Upkeep.Agent
import Upkeep.Proofs.Session.Granted
import Upkeep.Proofs.Store.Faults
import Upkeep.Proofs.Store.Shared

/-!
Whose agent an agent is. A restore asks the token set of a row whether it names somebody else, and
never the row itself: a session that is rotated is bound to the identifier it was asked for, and one
that is taken as it is to the identifier in the row. The two differ for a row that is filed under an
identifier which is not its own, and which names no subject.
-/

namespace Upkeep

open Store

namespace TokenSet

def NamesOnly (d : Did) (set : Json) : Prop :=
  ∀ subject, set.get? "sub" = some (.text subject) → subject = d.text

theorem namesOnly_iff {d : Did} {set : Json} :
    NamesOnly d set ↔ Rotation.otherSubject? set d = none := by
  unfold NamesOnly Rotation.otherSubject?
  rw [Option.filter_eq_none_iff]
  simp only [Option.bind_eq_some_iff, decide_eq_true_eq, not_not]
  constructor
  · rintro h subject ⟨x, hx, htext⟩
    cases x with
    | text s =>
        cases htext
        exact h _ hx
    | _ => cases htext
  · exact fun h subject hsubject => h subject ⟨_, hsubject, rfl⟩

theorem NamesOnly.reread {d : Did} {set set' : Json} (h : NamesOnly d set)
    (hsub : set'.get? "sub" = (set.get? "sub").map Json.reread) : NamesOnly d set' := by
  intro subject hsubject
  rw [hsub, Option.map_eq_some_iff] at hsubject
  obtain ⟨x, hx, htext⟩ := hsubject
  exact h subject (hx.trans (congrArg some (Json.reread_eq_text.mp htext)))

def Speaks (d : Did) (b : Blob) : Prop :=
  ∃ v set, Json.parse b.text = .ok v ∧ of? v = some set ∧ NamesOnly d set

/-- A granted token does not change whom a blob speaks of, under whichever key it is written. -/
theorem Speaks.merge {d : Did} {b b' : Blob} (h : Speaks d b) {v : Json}
    (hv : Json.parse b.text = .ok v) {now : UInt64} {t : Grant.Token}
    (hmerge : TokenSet.merge v t (expiryOf now t) = some b') : Speaks d b' := by
  obtain ⟨v₀, set, hv₀, hset, honly⟩ := h
  cases hv.symm.trans hv₀
  obtain ⟨written, hwritten⟩ : ∃ written, v.get? (writtenKey v) = some (.object written) := by
    by_contra hnone
    rw [merge_eq_none (fun written h => hnone ⟨written, h⟩)] at hmerge
    cases hmerge
  obtain ⟨b₁, v', hmerge₁, hparse, hget⟩ :=
    merge_readBack (Json.readable_parse hv) written hwritten now t
  cases hmerge.symm.trans hmerge₁
  by_cases hboth : HasBoth v
  · -- the reader does not look where the token is written
    have hread : v'.get? readKey = some set.reread := by
      have hother : readKey ≠ writtenKey v := by
        rw [writtenKey, if_pos hboth.2]
        decide
      have hold : v.get? readKey = some set := by
        have hfound := (of?_eq_some hset).1
        rwa [foundKey, if_pos hboth.1] at hfound
      rw [hget, if_neg hother, hold]
      rfl
    have hset' : of? v' = some set.reread := by
      obtain ⟨members, rfl⟩ := (of?_eq_some hset).2
      rw [of?, hread]
      rfl
    exact ⟨v', _, hparse, hset', honly.reread (Json.get?_reread _ _)⟩
  · obtain ⟨hfound, members, rfl⟩ := of?_eq_some hset
    rw [← writtenKey_eq_foundKey hset hboth] at hfound
    cases hwritten.symm.trans hfound
    have hkept : ¬ IsGranted t "sub" := by simp [IsGranted]
    refine ⟨v', _, hparse, of?_written hset hboth hget, honly.reread ?_⟩
    rw [Json.get?_reread]
    exact congrArg _ (get?_granted_of_not t _ written hkept)

end TokenSet

/-- What is asked of others does not touch a store that clients share. -/
theorem Store.Shared.of_not_store {r : Work.Request} {m m' : Memory} {x : r.Reply}
    (h : Shared r m x m') (hr : ∀ c, r ≠ .store c) : m' = m := by
  cases h with
  | answered c => exact absurd rfl (hr c)
  | failed c => exact absurd rfl (hr c)
  | elsewhere => rfl

theorem Store.Shared.of_store {c : Call} {m m' : Memory} {x : Reply c}
    (h : Shared (.store c) m x m') :
    x = (Memory.answer c m).1 ∧ m' = (Memory.answer c m).2 ∨ ∃ e, x = .error e ∧ m' = m := by
  cases h with
  | answered => exact .inl ⟨rfl, rfl⟩
  | failed _ _ e => exact .inr ⟨e, rfl, rfl⟩
  | elsewhere _ _ _ h => exact absurd rfl (h c)

/-! Errands over a store that clients share, by what the store holds when they end. -/

section Leaves

variable {σ : Type} {answer : Program.Answers work σ} {held : σ → Memory} {told : UInt64 → Prop}
  {α β : Type}

/-- Whenever a run that finds the store like this ends, its result and the store are as `post` says. -/
def Work.Leaves (answer : Program.Answers work σ) (held : σ → Memory) (p : Work α) (m : Memory)
    (post : α → Memory → Prop) : Prop :=
  ∀ s a s', held s = m → p.run answer s = (some a, s') → post a (held s')

namespace Work

variable {m : Memory} {post : β → Memory → Prop}

theorem Leaves.mono {p : Work β} {post' : β → Memory → Prop} (h : p.Leaves answer held m post)
    (hpost : ∀ a m', post a m' → post' a m') : p.Leaves answer held m post' :=
  fun s a s' hs hrun => hpost a _ (h s a s' hs hrun)

theorem leaves_done {b : β} (h : post b m) : Leaves answer held (.done b) m post := by
  intro s a s' hs hrun
  cases hrun
  exact hs ▸ h

theorem Leaves.bind {p : Work α} {f : α → Work β}
    (h : p.Leaves answer held m fun a m' => (f a).Leaves answer held m' post) :
    Leaves answer held (p.bind f) m post := by
  intro s b s' hs hrun
  rw [Program.run_bind] at hrun
  cases hp : p.run answer s with
  | mk a s₁ =>
      rw [hp] at hrun
      cases a with
      | none => cases hrun
      | some a => exact h s a s₁ hs hp s₁ b s' rfl hrun

theorem Leaves.onSuccess {p : Errand α} {f : α → Errand β}
    {post : Except Failure β → Memory → Prop}
    (h : Leaves answer held p m fun x m' => match x with
      | .ok a => (f a).Leaves answer held m' post
      | .error e => post (.error e) m') : Leaves answer held (p.onSuccess f) m post := by
  refine Leaves.bind (h.mono fun x m' hx => ?_)
  cases x with
  | ok a => exact hx
  | error e => exact leaves_done hx

variable (hshared : ∀ r s, Shared r (held s) (answer r s).1 (held (answer r s).2))

include hshared

/-- What is asked of others leaves the store as it is. -/
theorem leaves_ask {r : Request} {f : r.Reply → Work β} (hr : ∀ c, r ≠ .store c)
    (h : ∀ s, (f (answer r s).1).Leaves answer held m post) :
    Leaves answer held ((ask r).bind f) m post := by
  intro s b s' hs hrun
  exact h s _ b s' (((hshared r s).of_not_store hr).trans hs) hrun

/-- A call of the store is answered, or fails and does nothing. -/
theorem leaves_call {c : Call} {post : Except Failure c.Answer → Memory → Prop}
    (hok : ∀ a, (Memory.answer c m).1 = .ok a → post (.ok a) (Memory.answer c m).2)
    (hfail : ∀ f, post (.error f) m) : Leaves answer held (call c) m post := by
  intro s x s' hs hrun
  subst hs
  have hturn := (hshared (.store c) s).of_store
  rw [run_call] at hrun
  obtain ⟨hx, rfl⟩ := Prod.mk.inj hrun
  obtain rfl := Option.some.inj hx
  rcases hturn with ⟨hreply, hheld⟩ | ⟨e, hreply, hheld⟩
  · rw [hreply, hheld]
    cases hanswer : (Memory.answer c (held s)).1 with
    | ok a => exact hok a hanswer
    | error e => cases c <;> cases hanswer
  · rw [hreply, hheld]
    exact hfail _

theorem leaves_get {key : String} {post : Except Failure (Option Bytes) → Memory → Prop}
    (hok : post (.ok (m.get? key)) m) (hfail : ∀ f, post (.error f) m) :
    Leaves answer held (get key) m post := by
  refine leaves_call hshared (fun a ha => ?_) hfail
  cases ha
  exact hok

theorem leaves_put {key : String} {value : Bytes} {post : Except Failure Unit → Memory → Prop}
    (hok : post (.ok ()) (m.insert key value)) (hfail : ∀ f, post (.error f) m) :
    Leaves answer held (put key value) m post :=
  leaves_call hshared (fun _ _ => hok) hfail

variable (hclock : ∀ s, told (answer .now s).1)

include hclock

theorem leaves_now {f : UInt64 → Work β}
    (h : ∀ now, told now → (f now).Leaves answer held m post) :
    Leaves answer held (now.bind f) m post :=
  leaves_ask hshared (fun _ h => nomatch h) fun s => h _ (hclock s)

end Work

/-! What a restore leaves behind. -/

/-- How a session comes out of a row: as it is, or rotated and written back. -/
inductive Rotation.Restores {ε : Type} (o : Rotation ε) (told : UInt64 → Prop) (d : Did) (m : Memory)
    (r : Record) : Session → Memory → Prop
  | kept (now : UInt64) (htold : told now) (hdue : ¬ o.IsDue r.blob now) :
      Restores o told d m r r.session m
  | rotated (b : Blob) (now later : UInt64) (htold : told now) (hdue : o.IsDue r.blob now) :
      Restores o told d m r ⟨d, b⟩ (m.insert (Rows.key d) (Rows.renew d b later (some r)).encode)

def Rotation.Yields {ε : Type} (o : Rotation ε) (told : UInt64 → Prop) (d : Did) (m : Memory)
    (session : Session) (m' : Memory) : Prop :=
  ∃ r, Rows.Holds m d r ∧ TokenSet.Speaks d session.blob ∧ o.Restores told d m r session m'

variable {m : Memory} {d : Did} (hshared : ∀ r s, Shared r (held s) (answer r s).1 (held (answer r s).2))

namespace Rows

include hshared

theorem leaves_get : (get d).Leaves answer held m fun x m' =>
    m' = m ∧ ∀ r, x = .ok (some r) → Holds m d r := by
  refine Work.Leaves.onSuccess (Work.leaves_get hshared ?_ fun f => ⟨rfl, nofun⟩)
  dsimp only
  cases hrow : m.get? (key d) with
  | none => exact Work.leaves_done ⟨rfl, nofun⟩
  | some bs =>
      dsimp only
      cases hr : Record.decode bs with
      | error e => exact Work.leaves_done ⟨rfl, nofun⟩
      | ok r =>
          refine Work.leaves_done ⟨rfl, fun r' h => ?_⟩
          cases h
          exact ⟨bs, hrow, hr⟩

theorem leaves_put (hclock : ∀ s, told (answer .now s).1) {r : Record} (hrow : Holds m d r)
    (b : Blob) : (put d b).Leaves answer held m fun x m' => match x with
      | .ok _ => ∃ now, told now ∧ m' = m.insert (key d) (renew d b now (some r)).encode
      | .error _ => m' = m := by
  obtain ⟨bs, hheld, hr⟩ := hrow
  refine Work.leaves_now hshared hclock fun now htold => ?_
  refine Work.Leaves.onSuccess (Work.leaves_get hshared ?_ fun f => rfl)
  dsimp only
  rw [hheld, Option.bind_some, hr]
  exact Work.Leaves.onSuccess
    (Work.leaves_put hshared (Work.leaves_done ⟨now, htold, rfl⟩) fun f => rfl)

end Rows

namespace Rotation

variable {ε : Type} (o : Rotation ε)

private def RestoreEnds (o : Rotation ε) (told : UInt64 → Prop) (d : Did) (m : Memory) :
    Except Failure (Option Session) → Memory → Prop
  | .ok (some session), m' => o.Yields told d m session m'
  | _, m' => m' = m

include hshared

theorem leaves_needsRotation (hclock : ∀ s, told (answer .now s).1) (b : Blob) :
    (o.needsRotation b).Leaves answer held m fun due m' => m' = m ∧
      if due then ∀ later, told later → ∃ now, told now ∧ o.IsDue b now
      else ∃ now, told now ∧ ¬ o.IsDue b now := by
  unfold needsRotation
  cases hx : o.decode b with
  | error e =>
      refine Work.leaves_done ⟨rfl, fun later htold => ⟨later, htold, fun x hx' => ?_⟩⟩
      cases hx.symm.trans hx'
  | ok x =>
      refine Work.leaves_now hshared hclock fun now htold => Work.leaves_done ⟨rfl, ?_⟩
      by_cases hdue : x ≤ saturatingAdd now o.margin
      · rw [if_pos (decide_eq_true hdue)]
        exact fun _ _ => ⟨now, htold, (isDue_iff hx now).mpr (le_saturatingAdd_iff.mp hdue)⟩
      · rw [if_neg (by simpa using hdue)]
        exact ⟨now, htold, fun h => hdue (le_saturatingAdd_iff.mpr ((isDue_iff hx now).mp h))⟩

theorem leaves_rotate (hclock : ∀ s, told (answer .now s).1) {r : Record} (hrow : Rows.Holds m d r)
    {v : Json} (hv : Json.parse r.blob.text = .ok v) (hspeaks : TokenSet.Speaks d r.blob)
    (hdue : ∀ later, told later → ∃ now, told now ∧ o.IsDue r.blob now) (token : String) :
    (o.rotate d v token).Leaves answer held m (o.RestoreEnds told d m) := by
  rw [rotate_eq]
  refine Work.leaves_ask hshared (fun _ h => nomatch h) fun s => ?_
  cases Grant.Reply.token (answer (.exchange ⟨o.clientId, token⟩) s).1 with
  | error e => exact Work.leaves_done rfl
  | ok t =>
      have hput (now : UInt64) :
          (putMerged d (TokenSet.merge v t (TokenSet.expiryOf now t))).Leaves answer held m
            (o.RestoreEnds told d m) := by
        cases hmerge : TokenSet.merge v t (TokenSet.expiryOf now t) with
        | none => exact Work.leaves_done rfl
        | some b =>
            refine Work.Leaves.onSuccess
              ((Rows.leaves_put hshared hclock hrow b).mono fun x m' hx => ?_)
            cases x with
            | error f => exact hx
            | ok _ =>
                obtain ⟨later, hlater, rfl⟩ := hx
                obtain ⟨now, htold, hdue⟩ := hdue later hlater
                exact Work.leaves_done
                  ⟨r, hrow, hspeaks.merge hv hmerge, .rotated b now later htold hdue⟩
      change (writeBack d v t).Leaves answer held m _
      unfold writeBack expiryOf
      split
      next hnone =>
        have hexpiry : TokenSet.expiryOf 0 t = .null := if_pos hnone
        exact hexpiry ▸ hput 0
      next => exact Work.leaves_now hshared hclock fun now _ => hput now

theorem leaves_restore (hclock : ∀ s, told (answer .now s).1) :
    (o.restore d).Leaves answer held m (o.RestoreEnds told d m) := by
  refine Work.Leaves.onSuccess ((Rows.leaves_get hshared).mono fun x m' hx => ?_)
  obtain ⟨rfl, hholds⟩ := hx
  rcases x with f | ⟨_ | r⟩
  · exact rfl
  · exact Work.leaves_done rfl
  have hrow := hholds r rfl
  change (restoreFound o d (some r)).Leaves answer held _ _
  unfold restoreFound
  dsimp only
  cases hv : Json.parse r.blob.text with
  | error e => exact Work.leaves_done rfl
  | ok v =>
      dsimp only
      cases hset : TokenSet.of? v with
      | none => exact Work.leaves_done rfl
      | some set =>
          dsimp only
          rw [restoreRow_eq]
          cases hsubject : otherSubject? set d with
          | some subject => exact Work.leaves_done rfl
          | none =>
              have hspeaks : TokenSet.Speaks d r.blob :=
                ⟨v, set, hv, hset, TokenSet.namesOnly_iff.mpr hsubject⟩
              refine Work.Leaves.bind
                ((o.leaves_needsRotation hshared hclock r.blob).mono fun due m' hdue => ?_)
              obtain ⟨rfl, hdue⟩ := hdue
              cases due with
              | false =>
                  obtain ⟨now, htold, hdue⟩ := hdue
                  exact Work.leaves_done ⟨r, hrow, hspeaks, .kept now htold hdue⟩
              | true =>
                  rw [rotateIf, if_pos rfl]
                  split
                  next => exact Work.leaves_done rfl
                  next token _ => exact o.leaves_rotate hshared hclock hrow hv hspeaks hdue token

end Rotation

namespace Agent

variable {ε : Type} (o : Rotation ε)

private def AttemptsEnd (o : Rotation ε) (told : UInt64 → Prop) (d : Did) (m : Memory) :
    Except (Option String) Session → Memory → Prop
  | .ok session, m' => o.Yields told d m session m'
  | .error _, m' => m' = m

include hshared

private theorem leaves_attempt (hclock : ∀ s, told (answer .now s).1) :
    (attempt o.restore d).Leaves answer held m (AttemptsEnd o told d m) := by
  refine Work.leaves_ask hshared (fun _ h => nomatch h) fun s => ?_
  refine Work.Leaves.bind ((o.leaves_restore hshared hclock).mono fun x m' hx => ?_)
  rcases x with f | ⟨_ | session⟩
  · exact Work.leaves_done hx
  · exact Work.leaves_done hx
  · exact Work.leaves_done hx

theorem leaves_attempts (hclock : ∀ s, told (answer .now s).1) (backoff : Duration) (more : Nat) :
    (attempts o.restore backoff d more).Leaves answer held m (AttemptsEnd o told d m) := by
  induction more with
  | zero => exact leaves_attempt hshared o hclock
  | succ more ih =>
      refine Work.Leaves.bind ((leaves_attempt hshared o hclock).mono fun x m' hx => ?_)
      cases x with
      | ok session => exact Work.leaves_done hx
      | error last =>
          cases hx
          exact Work.leaves_ask hshared (fun _ h => nomatch h) fun s => ih

theorem leaves_obtain (hclock : ∀ s, told (answer .now s).1) (retry : Retry) :
    (obtain o.restore retry d).Leaves answer held m fun x m' =>
      ∀ agent, x = .ok agent → o.Yields told d m agent.session m' := by
  refine Work.Leaves.bind ((leaves_attempts hshared o hclock _ _).mono fun x m' hx => ?_)
  cases x with
  | ok session =>
      refine Work.leaves_done fun agent h => ?_
      cases h
      exact hx
  | error last => exact Work.leaves_done nofun

end Agent

end Leaves

theorem Rows.Holds.unique {m : Memory} {d : Did} {r r' : Record} (h : Holds m d r)
    (h' : Holds m d r') : r = r' := by
  obtain ⟨bs, hheld, hr⟩ := h
  obtain ⟨bs', hheld', hr'⟩ := h'
  cases hheld.symm.trans hheld'
  exact Except.ok.inj (hr.symm.trans hr')

namespace Rotation.Restores

variable {ε : Type} {o : Rotation ε} {told : UInt64 → Prop} {d : Did} {m m' : Memory} {r : Record}
  {session : Session}

theorem did_iff (h : o.Restores told d m r session m') (hrow : Rows.Holds m d r) :
    session.did = d ↔ r.did = d ∨ m' ≠ m := by
  cases h with
  | kept now htold hdue => exact ⟨.inl, fun h => h.resolve_right fun hne => hne rfl⟩
  | rotated b now later htold hdue =>
      refine ⟨fun _ => ?_, fun _ => rfl⟩
      by_cases hsame : m.insert (Rows.key d) (Rows.renew d b later (some r)).encode = m
      · -- what was written is what was there, and it is filed under its own identifier
        have hwritten := Rows.holds_insert m d (Rows.renew d b later (some r))
        rw [hsame] at hwritten
        exact .inl (congrArg Record.did (hrow.unique hwritten))
      · exact .inr hsame

theorem did_iff_isDue {now : UInt64} (h : o.Restores (· = now) d m r session m') :
    session.did = d ↔ r.did = d ∨ o.IsDue r.blob now := by
  cases h with
  | kept _ htold hdue =>
      cases htold
      exact ⟨.inl, fun h => h.resolve_right hdue⟩
  | rotated b _ later htold hdue =>
      cases htold
      exact iff_of_true rfl (.inr hdue)

end Rotation.Restores

/-- Whatever the rows are, the time and the endpoint, and however often the store fails: an agent's
token set names nobody but the identifier it was asked for. The agent itself is bound to that
identifier exactly when the row is, or when the session was rotated, which it is when its token was
due. Otherwise it is bound to the identifier that stands in the row. -/
theorem Agent.bound_iff {σ ε : Type} {answer : Program.Answers work σ} {held : σ → Memory}
    (hshared : ∀ r s, Shared r (held s) (answer r s).1 (held (answer r s).2)) (o : Rotation ε)
    (retry : Retry) {d : Did} {s s' : σ} {agent : Agent}
    (hrun : (Agent.obtain o.restore retry d).run answer s = (some (.ok agent), s')) :
    TokenSet.Speaks d agent.session.blob ∧
      ∃ r, Rows.Holds (held s) d r ∧
        (agent.session = r.session ∧ held s' = held s ∨
          agent.session.did = d ∧ ∃ now, held s' = (held s).insert (Rows.key d)
            (Rows.renew d agent.session.blob now (some r)).encode) ∧
        (agent.session.did = d ↔ r.did = d ∨ held s' ≠ held s) ∧
        ∀ now, (∀ s, (answer .now s).1 = now) →
          (agent.session.did = d ↔ r.did = d ∨ o.IsDue r.blob now) := by
  have hyields (told : UInt64 → Prop) (hclock : ∀ s, told (answer .now s).1) :
      o.Yields told d (held s) agent.session (held s') :=
    leaves_obtain hshared o hclock retry s _ s' rfl hrun agent rfl
  obtain ⟨r, hrow, hspeaks, hrestores⟩ := hyields (fun _ => True) fun _ => trivial
  refine ⟨hspeaks, r, hrow, ?_, hrestores.did_iff hrow, fun now hclock => ?_⟩
  · generalize agent.session = session at hrestores
    generalize held s' = m' at hrestores
    cases hrestores with
    | kept => exact .inl ⟨rfl, rfl⟩
    | rotated b now later => exact .inr ⟨rfl, later, rfl⟩
  · obtain ⟨r', hrow', -, hrestores'⟩ := hyields (· = now) hclock
    cases hrow.unique hrow'
    exact hrestores'.did_iff_isDue

/-- A token that is not due is taken from its row at the first attempt, whoever stands in the row. -/
theorem Agent.run_obtain_kept {ε : Type} (o : Rotation ε) (retry : Retry)
    (elsewhere : (r : Work.Request) → r.Reply) {now : UInt64} (hnow : elsewhere .now = now)
    {m : Memory} {d : Did} {r : Record} (hrow : Rows.Holds m d r) {v set : Json}
    (hv : Json.parse r.blob.text = .ok v) (hset : TokenSet.of? v = some set)
    (honly : TokenSet.NamesOnly d set) (hdue : ¬ o.IsDue r.blob now) :
    (Agent.obtain o.restore retry d).run (Memory.alone elsewhere) m =
      (some (.ok ⟨r.session⟩), m) := by
  obtain ⟨due, hasks, -, hiff⟩ := o.needsRotation_asks elsewhere hnow (m := m) r.blob
  have hkept : due = false := Bool.eq_false_iff.mpr fun h => hdue (hiff.mp h)
  have hrestore : (o.restore d).run (Memory.alone elsewhere) m = (some (.ok (some r.session)), m) := by
    change ((Rows.get d).onSuccess (o.restoreFound d)).run _ _ = _
    rw [Program.run_onSuccess, Rotation.run_get elsewhere hrow]
    dsimp only
    rw [o.restoreFound_eq hv hset (TokenSet.namesOnly_iff.mp honly), Program.run_bind, hasks, hkept]
    rfl
  have hattempt : (attempt o.restore d).run (Memory.alone elsewhere) m = (some (.ok r.session), m) := by
    change ((o.restore d).bind _).run (Memory.alone elsewhere) m = _
    rw [Program.run_bind, hrestore]
    rfl
  have hattempts (more : Nat) : (attempts o.restore retry.backoff d more).run
      (Memory.alone elsewhere) m = (some (.ok r.session), m) := by
    cases more with
    | zero => exact hattempt
    | succ more =>
        rw [attempts, Program.run_bind, hattempt]
        rfl
  rw [obtain, Program.run_bind, hattempts]
  rfl

namespace Filing

def own : Did := ⟨"did:web:own", by decide⟩

def other : Did := ⟨"did:web:other", by decide⟩

def lasting : Json :=
  .object [(TokenSet.readKey, .object [("expires_at", .number (.natural 5000))])]

def filed (d : Did) : Record := ⟨d, ⟨lasting.render⟩, 1, 2, none⟩

def minute : Rotation Expiry.Error := ⟨"client", 60, Expiry.decoder⟩

private theorem run_filed (d : Did) :
    (Agent.obtain minute.restore ⟨1, .zero⟩ own).run (Memory.alone Memory.nobody)
      [(Rows.key own, (filed d).encode)] =
        (some (.ok ⟨d, ⟨lasting.render⟩⟩), [(Rows.key own, (filed d).encode)]) := by
  have hv : Json.parse lasting.render = .ok lasting := by
    refine Json.parse_render (.object (List.pairwise_singleton _ _) fun p hp => ?_)
    rw [List.mem_singleton.mp hp]
    refine .object (List.pairwise_singleton _ _) fun p hp => ?_
    rw [List.mem_singleton.mp hp]
    exact .number trivial
  have hdecode (b : Blob) : minute.decode b = Expiry.decoder b := rfl
  have hx : minute.decode ⟨lasting.render⟩ = .ok 5000 := by
    rw [hdecode, Expiry.decoder, hv]
    rfl
  have hdue : ¬ minute.IsDue ⟨lasting.render⟩ 0 := fun h =>
    absurd ((Rotation.isDue_iff hx 0).mp h) (by decide)
  have hset : TokenSet.of? lasting = some (.object [("expires_at", .number (.natural 5000))]) := rfl
  have honly : TokenSet.NamesOnly own (.object [("expires_at", .number (.natural 5000))]) := by
    intro subject h
    cases h
  have hrow : Rows.Holds [(Rows.key own, (filed d).encode)] own (filed d) :=
    Rows.holds_insert [] own (filed d)
  exact Agent.run_obtain_kept minute ⟨1, .zero⟩ Memory.nobody rfl hrow hv hset honly hdue

/-- A row under its own identifier makes an agent that is bound to it. -/
theorem bound_own :
    ∃ agent, (Agent.obtain minute.restore ⟨1, .zero⟩ own).run (Memory.alone Memory.nobody)
        [(Rows.key own, (filed own).encode)] =
          (some (.ok agent), [(Rows.key own, (filed own).encode)]) ∧
      agent.session.did = own ∧ TokenSet.Speaks own agent.session.blob ∧
      ∃ r, Rows.Holds [(Rows.key own, (filed own).encode)] own r ∧
        (agent.session.did = own ↔ r.did = own ∨ minute.IsDue r.blob 0) := by
  have hshared : ∀ r (rows : Memory), Shared r (id rows) (Memory.alone Memory.nobody r rows).1
      (id (Memory.alone Memory.nobody r rows).2) := Memory.alone_shared Memory.nobody
  obtain ⟨hspeaks, r, hrow, -, -, hdid⟩ :=
    Agent.bound_iff hshared minute ⟨1, .zero⟩ (run_filed own)
  exact ⟨_, run_filed own, rfl, hspeaks, r, hrow, hdid (0 : UInt64) fun _ => rfl⟩

/-- A row under another's identifier makes an agent that is bound to the identifier in the row. -/
theorem not_bound_misfiled :
    ¬ ∀ (m : Memory) (agent : Agent) (m' : Memory),
      (Agent.obtain minute.restore ⟨1, .zero⟩ own).run (Memory.alone Memory.nobody) m =
        (some (.ok agent), m') → agent.session.did = own := by
  intro hbound
  have hsame : other = own := hbound _ _ _ (run_filed other)
  exact absurd hsame (by decide)

end Filing

end Upkeep
