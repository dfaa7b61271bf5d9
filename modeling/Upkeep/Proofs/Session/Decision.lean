import Upkeep.Proofs.Finishing
import Upkeep.Proofs.Session.Bound

/-!
How a restore is decided, whatever it is told and whenever the store fails. What it reads first tells
whether there is a session at all and whether a token may be asked for; it asks for one at most, and
leaves the store as it is unless it ends with a session.
-/

namespace Upkeep

open Store

theorem Json.bind_text?_eq_some {x : Option Json} {s : String} :
    x.bind Json.text? = some s ↔ x = some (.text s) := by
  constructor
  · intro h
    obtain ⟨v, rfl, hv⟩ := Option.bind_eq_some_iff.mp h
    cases v with
    | text s' => exact congrArg (some ∘ Json.text) (Option.some.inj hv)
    | _ => cases hv
  · rintro rfl
    rfl

def Work.exchanges (l : List Work.Request) : List Grant.Request :=
  l.filterMap fun
    | .exchange g => some g
    | _ => none

theorem Work.exchanges_append (l l' : List Work.Request) :
    exchanges (l ++ l') = exchanges l ++ exchanges l' := List.filterMap_append ..

namespace Rows

def reading : Except Store.Error (Option Bytes) → Except Failure (Option Record)
  | .error e => .error (.store e)
  | .ok none => .ok none
  | .ok (some bs) =>
    match Record.decode bs with
    | .ok r => .ok (some r)
    | .error e => .error (.json e)

theorem reading_encode (r : Record) : reading (.ok (some r.encode)) = .ok (some r) := by
  simp only [reading, Record.decode_encode]

theorem eq_none_of_reading {reply : Except Store.Error (Option Bytes)}
    (h : reading reply = .ok none) : reply = .ok none := by
  rcases reply with e | _ | bs
  · cases h
  · rfl
  · rw [reading] at h
    cases hr : Record.decode bs <;> rw [hr] at h <;> cases h

end Rows

section Decision

variable {σ : Type} {answer : Program.Answers work σ} {held : σ → Memory} {s : σ} {d : Did}

theorem Rows.finishes_get {post : Except Failure (Option Record) → σ → List Work.Request → Prop}
    (h : ∀ x s', answer (.store (.get (key d))) s = (x, s') →
      post (reading x) s' [.store (.get (key d))]) : (Rows.get d).Finishes answer s post := by
  refine Work.finishes_call (fun current s' hturn => ?_) fun e s' hturn => h _ s' hturn
  have hpost := h _ s' hturn
  cases current with
  | none => exact hpost
  | some bs =>
      simp only [reading] at hpost
      dsimp only
      cases hr : Record.decode bs with
      | ok r =>
          rw [hr] at hpost
          exact hpost
      | error e =>
          rw [hr] at hpost
          exact hpost

namespace Rotation

/-- A row was read whose blob has a token set that names nobody else. -/
structure Finds (d : Did) (reply : Except Store.Error (Option Bytes)) (r : Record) (v set : Json) :
    Prop where
  row : Rows.reading reply = .ok (some r)
  parse : Json.parse r.blob.text = .ok v
  tokens : TokenSet.of? v = some set
  only : TokenSet.NamesOnly d set

theorem Finds.unique {reply : Except Store.Error (Option Bytes)} {r r' : Record} {v v' set set' : Json}
    (h : Finds d reply r v set) (h' : Finds d reply r' v' set') : r = r' ∧ v = v' ∧ set = set' := by
  cases h.row.symm.trans h'.row
  cases h.parse.symm.trans h'.parse
  cases h.tokens.symm.trans h'.tokens
  exact ⟨rfl, rfl, rfl⟩

theorem Finds.ne_none {reply : Except Store.Error (Option Bytes)} {r : Record} {v set : Json}
    (h : Finds d reply r v set) : reply ≠ .ok none := by
  rintro rfl
  cases h.row

variable {ε : Type} (o : Rotation ε)

/-- The request for a token that a row calls for: its token is due, and has a refresh token. -/
def CallsFor (d : Did) (reply : Except Store.Error (Option Bytes)) (now : UInt64)
    (g : Grant.Request) : Prop :=
  ∃ r v set token, Finds d reply r v set ∧ o.IsDue r.blob now ∧
    set.get? "refresh_token" = some (.text token) ∧ g = ⟨o.clientId, token⟩

theorem CallsFor.unique {o : Rotation ε} {d : Did} {reply : Except Store.Error (Option Bytes)}
    {now : UInt64} {g g' : Grant.Request} (h : o.CallsFor d reply now g)
    (h' : o.CallsFor d reply now g') : g = g' := by
  obtain ⟨r, v, set, token, hfinds, -, htoken, rfl⟩ := h
  obtain ⟨r', v', set', token', hfinds', -, htoken', rfl⟩ := h'
  obtain ⟨-, -, rfl⟩ := hfinds.unique hfinds'
  cases htoken.symm.trans htoken'
  rfl

/-- How a restore ends that found the store to hold `m`, by what it read first and the time after
that: with a session, or with the store as it was. -/
inductive Decided (d : Did) (reply : Except Store.Error (Option Bytes)) (now : UInt64) (m : Memory) :
    Except Failure (Option Session) → Memory → List Work.Request → Prop
  | absent {l : List Work.Request} (hreply : reply = .ok none) (hl : Work.exchanges l = []) :
      Decided d reply now m (.ok none) m l
  | refused {f : Failure} {l : List Work.Request} (hreply : reply ≠ .ok none)
      (hno : ∀ r v set, ¬ Finds d reply r v set) (hl : Work.exchanges l = []) :
      Decided d reply now m (.error f) m l
  | kept {r : Record} {v set : Json} (hfinds : Finds d reply r v set)
      (hdue : ¬ o.IsDue r.blob now) :
      Decided d reply now m (.ok (some r.session)) m [.store (.get (Rows.key d)), .now]
  | unarmed {r : Record} {v set : Json} {f : Failure} {l : List Work.Request}
      (hfinds : Finds d reply r v set) (hdue : o.IsDue r.blob now)
      (htoken : ∀ token, set.get? "refresh_token" ≠ some (.text token))
      (hl : Work.exchanges l = []) : Decided d reply now m (.error f) m l
  | rejected {g : Grant.Request} {f : Failure} {l : List Work.Request}
      (hg : o.CallsFor d reply now g) (hl : Work.exchanges l = [g]) :
      Decided d reply now m (.error f) m l
  | rotated {g : Grant.Request} {session : Session} {m' : Memory} {l : List Work.Request}
      (hg : o.CallsFor d reply now g) (hl : Work.exchanges l = [g]) :
      Decided d reply now m (.ok (some session)) m' l

namespace Decided

variable {o : Rotation ε} {d : Did} {reply : Except Store.Error (Option Bytes)} {now : UInt64}
  {m m' : Memory} {x : Except Failure (Option Session)} {l : List Work.Request}
  (h : o.Decided d reply now m x m' l)

include h

theorem eq_none_iff : x = .ok none ↔ reply = .ok none := by
  cases h with
  | absent hreply => exact iff_of_true rfl hreply
  | refused hreply => exact iff_of_false nofun hreply
  | kept hfinds | unarmed hfinds => exact iff_of_false nofun hfinds.ne_none
  | rejected hg | rotated hg =>
      obtain ⟨r, v, set, token, hfinds, -⟩ := hg
      exact iff_of_false nofun hfinds.ne_none

theorem length_exchanges_le : (Work.exchanges l).length ≤ 1 := by
  cases h with
  | absent _ hl | refused _ _ hl | unarmed _ _ _ hl | rejected _ hl | rotated _ hl => simp [hl]
  | kept => exact Nat.zero_le _

theorem mem_exchanges_iff (g : Grant.Request) :
    g ∈ Work.exchanges l ↔ o.CallsFor d reply now g := by
  cases h with
  | absent hreply hl =>
      rw [hl]
      exact iff_of_false nofun fun ⟨_, _, _, _, hfinds, _⟩ => hfinds.ne_none hreply
  | refused _ hno hl =>
      rw [hl]
      exact iff_of_false nofun fun ⟨_, _, _, _, hfinds, _⟩ => hno _ _ _ hfinds
  | kept hfinds hdue =>
      refine iff_of_false nofun fun ⟨_, _, _, _, hfinds', hdue', _⟩ => ?_
      obtain ⟨rfl, -, -⟩ := hfinds.unique hfinds'
      exact hdue hdue'
  | unarmed hfinds _ htoken hl =>
      rw [hl]
      refine iff_of_false nofun fun ⟨_, _, _, token, hfinds', _, htoken', _⟩ => ?_
      obtain ⟨-, -, rfl⟩ := hfinds.unique hfinds'
      exact htoken token htoken'
  | rejected hg hl | rotated hg hl =>
      rw [hl, List.mem_singleton]
      exact ⟨fun heq => heq ▸ hg, fun hg' => hg'.unique hg⟩

theorem eq_kept {r : Record} {v set : Json} (hfinds : Finds d reply r v set)
    (hdue : ¬ o.IsDue r.blob now) : x = .ok (some r.session) ∧ m' = m ∧
      l = [.store (.get (Rows.key d)), .now] := by
  cases h with
  | absent hreply => exact absurd hreply hfinds.ne_none
  | refused _ hno => exact absurd hfinds (hno _ _ _)
  | kept hfinds' =>
      obtain ⟨rfl, -, -⟩ := hfinds.unique hfinds'
      exact ⟨rfl, rfl, rfl⟩
  | unarmed hfinds' hdue' =>
      obtain ⟨rfl, -, -⟩ := hfinds.unique hfinds'
      exact absurd hdue' hdue
  | rejected hg | rotated hg =>
      obtain ⟨r', v', set', token, hfinds', hdue', -⟩ := hg
      obtain ⟨rfl, -, -⟩ := hfinds.unique hfinds'
      exact absurd hdue' hdue

theorem unchanged (hx : ∀ session, x ≠ .ok (some session)) : m' = m := by
  cases h with
  | rotated => exact absurd rfl (hx _)
  | _ => rfl

end Decided

end Rotation

section Shared

variable (hshared : ∀ r s, Shared r (held s) (answer r s).1 (held (answer r s).2))

include hshared

theorem Work.held_error {c : Call} {e : Error} {s' : σ} (h : answer (.store c) s = (.error e, s')) :
    held s' = held s := by
  have hturn := (hshared (.store c) s).of_store
  rw [h] at hturn
  rcases hturn with ⟨hanswer, -⟩ | ⟨-, -, hheld⟩
  · cases c <;> cases hanswer
  · exact hheld

theorem Work.held_get {key : String} {x : Except Error (Option Bytes)} {s' : σ}
    (h : answer (.store (.get key)) s = (x, s')) :
    held s' = held s ∧ ∀ current, x = .ok current → current = (held s).get? key := by
  have hturn := (hshared (.store (.get key)) s).of_store
  rw [h] at hturn
  rcases hturn with ⟨rfl, hheld⟩ | ⟨e, rfl, hheld⟩
  · refine ⟨hheld, fun current hx => ?_⟩
    cases hx
    rfl
  · exact ⟨hheld, nofun⟩

theorem Work.held_now (s : σ) : held (answer .now s).2 = held s :=
  (hshared .now s).of_not_store fun _ h => nomatch h

/-- Only the last call of a write changes the store, and it does not if it fails. -/
theorem Rows.finishes_put (b : Blob) (s : σ) : (Rows.put d b).Finishes answer s fun x s' l =>
    Work.exchanges l = [] ∧ ∀ f, x = .error f → held s' = held s := by
  refine Work.finishes_ask (Work.finishes_call (fun current s' hturn => ?_) fun e s' hturn => ?_)
  · refine Work.finishes_call (fun _ s'' hturn' => ⟨rfl, nofun⟩)
      fun e s'' hturn' => ⟨rfl, fun _ _ => ?_⟩
    exact ((Work.held_error hshared hturn').trans (Work.held_get hshared hturn).1).trans
      (Work.held_now hshared s)
  · exact ⟨rfl, fun _ _ => (Work.held_error hshared hturn).trans (Work.held_now hshared s)⟩

namespace Rotation

variable {ε : Type} (o : Rotation ε)

private def Lands (m m' : Memory) : Except Failure (Option Session) → Prop
  | .ok session => session.isSome = true
  | .error _ => m' = m

theorem finishes_writeBack (v : Json) (t : Grant.Token) (s : σ) :
    (writeBack d v t).Finishes answer s fun x s' l =>
      Work.exchanges l = [] ∧ Lands (held s) (held s') x := by
  have hput (expiry : Json) (s₁ : σ) (hheld : held s₁ = held s) :
      (putMerged d (TokenSet.merge v t expiry)).Finishes answer s₁ fun x s' l =>
        Work.exchanges l = [] ∧ Lands (held s) (held s') x := by
    cases TokenSet.merge v t expiry with
    | none => exact ⟨rfl, hheld⟩
    | some b =>
        refine Program.Finishes.onSuccess ((Rows.finishes_put hshared b s₁).mono fun x s' l hx => ?_)
        cases x with
        | error f => exact ⟨hx.1, (hx.2 f rfl).trans hheld⟩
        | ok r =>
            exact ⟨(congrArg Work.exchanges (List.append_nil l)).trans hx.1, rfl⟩
  unfold writeBack expiryOf
  split
  · exact hput .null s rfl
  · refine Program.Finishes.bind (Work.finishes_ask ?_)
    exact hput _ _ (Work.held_now hshared s)

theorem finishes_rotate (v : Json) (token : String) (s : σ) :
    (o.rotate d v token).Finishes answer s fun x s' l =>
      Work.exchanges l = [⟨o.clientId, token⟩] ∧ Lands (held s) (held s') x := by
  rw [rotate_eq]
  refine Work.finishes_ask ?_
  have hheld : held (answer (.exchange ⟨o.clientId, token⟩) s).2 = held s :=
    (hshared (.exchange ⟨o.clientId, token⟩) s).of_not_store fun _ h => nomatch h
  cases Grant.Reply.token (answer (.exchange ⟨o.clientId, token⟩) s).1 with
  | error e => exact ⟨rfl, hheld⟩
  | ok t =>
      refine (finishes_writeBack hshared v t _).mono fun x s' l hx => ?_
      rw [hheld] at hx
      exact ⟨congrArg (_ :: ·) hx.1, hx.2⟩

theorem finishes_needsRotation (b : Blob) (s : σ) :
    (o.needsRotation b).Finishes answer s fun due s' l =>
      held s' = held s ∧ Work.exchanges l = [] ∧ (due = true ↔ o.IsDue b (answer .now s).1) ∧
        (due = false → l = [.now]) := by
  unfold needsRotation
  cases hx : o.decode b with
  | error e =>
      refine ⟨rfl, rfl, iff_of_true rfl fun x hx' => ?_, nofun⟩
      cases hx.symm.trans hx'
  | ok x =>
      refine Work.finishes_ask ⟨Work.held_now hshared s, rfl, ?_, fun _ => rfl⟩
      exact decide_eq_true_iff.trans (le_saturatingAdd_iff.trans (isDue_iff hx _).symm)

/-- What a restore does with a row that was read. -/
theorem finishes_restoreFound {reply : Except Error (Option Bytes)} {r : Record}
    (hrow : Rows.reading reply = .ok (some r)) (s : σ) :
    (restoreFound o d (some r)).Finishes answer s fun x s' l =>
      o.Decided d reply (answer .now s).1 (held s) x (held s') (.store (.get (Rows.key d)) :: l) := by
  have hreply : reply ≠ .ok none := by
    rintro rfl
    cases hrow
  have hsame {r' : Record} {v set : Json} (h : Finds d reply r' v set) : r' = r := by
    cases h.row.symm.trans hrow
    rfl
  unfold restoreFound
  dsimp only
  cases hv : Json.parse r.blob.text with
  | error e =>
      refine .refused hreply (fun r' v set h => ?_) rfl
      cases hv.symm.trans (hsame h ▸ h.parse)
  | ok v =>
      dsimp only
      cases hset : TokenSet.of? v with
      | none =>
          refine .refused hreply (fun r' v' set h => ?_) rfl
          cases hv.symm.trans (hsame h ▸ h.parse)
          cases hset.symm.trans h.tokens
      | some set =>
          dsimp only
          rw [restoreRow_eq]
          cases hsubject : otherSubject? set d with
          | some subject =>
              refine .refused hreply (fun r' v' set' h => ?_) rfl
              cases hv.symm.trans (hsame h ▸ h.parse)
              cases hset.symm.trans h.tokens
              cases hsubject.symm.trans (TokenSet.namesOnly_iff.mp h.only)
          | none =>
              have hfinds : Finds d reply r v set :=
                ⟨hrow, hv, hset, TokenSet.namesOnly_iff.mpr hsubject⟩
              refine Program.Finishes.bind
                ((o.finishes_needsRotation hshared r.blob s).mono fun due s' l hdue => ?_)
              obtain ⟨hheld, hquiet, hiff, hasks⟩ := hdue
              cases due with
              | false =>
                  rw [rotateIf, if_neg Bool.false_ne_true, hasks rfl]
                  change o.Decided d reply _ (held s) _ (held s') _
                  rw [hheld]
                  exact .kept hfinds fun h => Bool.false_ne_true (hiff.mpr h)
              | true =>
                  rw [rotateIf, if_pos rfl]
                  cases htoken : (set.get? "refresh_token").bind Json.text? with
                  | none =>
                      change o.Decided d reply _ (held s) _ (held s') _
                      rw [hheld]
                      refine .unarmed hfinds (hiff.mp rfl) (fun token h => ?_)
                        ((congrArg Work.exchanges (List.append_nil l)).trans hquiet)
                      cases htoken.symm.trans (Json.bind_text?_eq_some.mpr h)
                  | some token =>
                      have hg : o.CallsFor d reply (answer .now s).1 ⟨o.clientId, token⟩ :=
                        ⟨r, v, set, token, hfinds, hiff.mp rfl,
                          Json.bind_text?_eq_some.mp htoken, rfl⟩
                      refine (o.finishes_rotate hshared v token s').mono fun x s'' l' hx => ?_
                      have hl : Work.exchanges (.store (.get (Rows.key d)) :: (l ++ l')) =
                          [⟨o.clientId, token⟩] := by
                        refine (Work.exchanges_append l l').trans ?_
                        rw [hquiet, hx.1]
                        rfl
                      rcases x with f | _ | session
                      · have hlands : held s'' = held s' := hx.2
                        change o.Decided d reply _ (held s) _ (held s'') _
                        rw [hlands, hheld]
                        exact .rejected hg hl
                      · cases hx.2
                      · exact .rotated hg hl

/-- A restore is decided by what it reads first and the time after that. -/
theorem finishes_restore (s : σ) :
    (o.restore d).Finishes answer s fun x s' l =>
      o.Decided d (answer (.store (.get (Rows.key d))) s).1
        (answer .now (answer (.store (.get (Rows.key d))) s).2).1 (held s) x (held s') l := by
  refine Program.Finishes.onSuccess (Rows.finishes_get fun reply s₁ hturn => ?_)
  have hheld : held s₁ = held s := (Work.held_get hshared hturn).1
  rw [hturn, ← hheld]
  dsimp only
  cases hreading : Rows.reading reply with
  | error f =>
      refine .refused (fun habsent => ?_) (fun r v set hfinds => ?_) rfl
      · rw [habsent] at hreading
        cases hreading
      · cases hreading.symm.trans hfinds.row
  | ok row =>
      cases row with
      | none => exact .absent (Rows.eq_none_of_reading hreading) rfl
      | some r => exact o.finishes_restoreFound hshared hreading s₁

end Rotation

end Shared

end Decision

namespace Rotation

/-- For every row, time and reply of the endpoint, and however often the store fails: there is no
session exactly when the first read succeeds and finds no row. A token is asked for once at most,
and exactly when what was read calls for it, with its own refresh token. A session that is not due is
taken as it is, without another call of the store; and without a session the store is as it was. -/
theorem restore_decides {σ ε : Type} {answer : Program.Answers work σ} {held : σ → Memory}
    (hshared : ∀ r s, Shared r (held s) (answer r s).1 (held (answer r s).2)) (o : Rotation ε)
    (d : Did) (s : σ) :
    let read := Work.Request.store (.get (Rows.key d))
    let reply : Except Error (Option Bytes) := (answer read s).1
    let now : UInt64 := (answer .now (answer read s).2).1
    let asked := (o.restore d).trace answer s
    ∃ x s', (o.restore d).run answer s = (some x, s') ∧
      (∀ found, reply = .ok found → found = (held s).get? (Rows.key d)) ∧
      (x = .ok none ↔ reply = .ok none) ∧
      (Work.exchanges asked).length ≤ 1 ∧
      (∀ g, g ∈ Work.exchanges asked ↔ o.CallsFor d reply now g) ∧
      (∀ r v set, Finds d reply r v set → ¬ o.IsDue r.blob now →
        x = .ok (some r.session) ∧ held s' = held s ∧ asked = [read, .now]) ∧
      ((∀ session, x ≠ .ok (some session)) → held s' = held s) := by
  intro read reply now asked
  obtain ⟨x, s', hrun, hdecided⟩ :=
    Program.finishes_iff.mp (o.finishes_restore hshared (d := d) s)
  exact ⟨x, s', hrun, (Work.held_get hshared rfl).2, hdecided.eq_none_iff,
    hdecided.length_exchanges_le, hdecided.mem_exchanges_iff,
    fun _ _ _ hfinds hdue => hdecided.eq_kept hfinds hdue, hdecided.unchanged⟩

/-- A row whose token says nothing of its expiry, when the endpoint cannot be reached: one request is
sent, the restore fails, and the row is as it was. -/
theorem restore_decides_unreachable :
    let o : Rotation Expiry.Error := ⟨"client", 60, Expiry.decoder⟩
    let d : Did := ⟨"did:a:a", by decide⟩
    let set : Json := .object [("refresh_token", .text "old")]
    let v : Json := .object [(TokenSet.readKey, set)]
    let m : Memory := [(Rows.key d, (⟨d, ⟨v.render⟩, 1, 2, none⟩ : Record).encode)]
    let answer := Memory.alone Memory.nobody
    (o.restore d).run answer m = (some (.error (.grant .unreachable)), m) ∧
      Work.exchanges ((o.restore d).trace answer m) = [⟨"client", "old"⟩] := by
  intro o d set v m answer
  let r : Record := ⟨d, ⟨v.render⟩, 1, 2, none⟩
  have hv : Json.parse v.render = .ok v := by
    refine Json.parse_render (.object (List.pairwise_singleton _ _) fun p hp => ?_)
    rw [List.mem_singleton.mp hp]
    refine .object (List.pairwise_singleton _ _) fun p hp => ?_
    rw [List.mem_singleton.mp hp]
    exact .text "old"
  obtain ⟨e, he⟩ : ∃ e, o.decode r.blob = .error e := by
    have hdecode (b : Blob) : o.decode b = Expiry.decoder b := rfl
    have hv : Json.parse r.blob.text = .ok v := hv
    rw [hdecode, Expiry.decoder, hv]
    exact ⟨_, rfl⟩
  have honly : TokenSet.NamesOnly d set := by
    intro subject h
    cases h
  have hrow : Rows.Holds m d r := Rows.holds_insert [] d r
  have hrun : (o.restore d).run answer m = (some (.error (.grant .unreachable)), m) := by
    have hfound : o.restoreFound d (some r) = o.rotate d v "old" := by
      have hv : Json.parse r.blob.text = .ok v := hv
      have hset : TokenSet.of? v = some set := rfl
      exact restoreFound_due hv hset (TokenSet.namesOnly_iff.mp honly) he rfl
    change ((Rows.get d).onSuccess (o.restoreFound d)).run answer m = _
    rw [Program.run_onSuccess, run_get Memory.nobody hrow]
    dsimp only
    rw [hfound, rotate_eq]
    rfl
  have hcalls : o.CallsFor d (.ok (some r.encode)) 0 ⟨"client", "old"⟩ :=
    ⟨r, v, set, "old", ⟨Rows.reading_encode r, hv, rfl, honly⟩,
      fun x hx => (by cases he.symm.trans hx), rfl, rfl⟩
  have hshared : ∀ r (rows : Memory), Shared r (id rows) (answer r rows).1 (id (answer r rows).2) :=
    Memory.alone_shared Memory.nobody
  obtain ⟨x, s', -, -, -, hlength, hmem, -, -⟩ := restore_decides hshared o d m
  have hget : Table.get? m (Rows.key d) = some r.encode := Table.get?_insert_self ([] : Memory) ..
  have hreply : (answer (.store (.get (Rows.key d))) m).1 = .ok (Table.get? m (Rows.key d)) := rfl
  rw [hreply, hget] at hmem
  refine ⟨hrun, ?_⟩
  obtain ⟨g, hg⟩ := List.length_eq_one_iff.mp
    (Nat.le_antisymm hlength (List.length_pos_of_mem ((hmem _).mpr hcalls)))
  have hin := (hmem _).mpr hcalls
  rw [hg] at hin ⊢
  rw [List.mem_singleton.mp hin]

end Rotation

end Upkeep
