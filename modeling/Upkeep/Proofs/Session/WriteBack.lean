import Upkeep.Proofs.Interleaving
import Upkeep.Proofs.Session.Record
import Upkeep.Proofs.Session.Restore
import Upkeep.Proofs.Store.Memory
import Upkeep.Proofs.Token.Grant
import Upkeep.Proofs.Token.Merge

/-!
A restore beside another client of its row. The other client logs in anew or removes the account;
the restore writes back a rotated blob without a look at what became of the row it read. So what
the other client did stands unless the restore writes back after it, and a write-back leaves it
standing only if it happens to write the very blob of the login.
-/

namespace Upkeep.WriteBack

open Store

inductive Side where
  | restore
  | rival
  deriving DecidableEq

inductive Rival where
  | login (b : Blob)
  | removal

namespace Rival

def program (d : Did) : Rival → Work Unit
  | .login b => (Rows.put d b).bind fun _ => .done ()
  | .removal => (Rows.delete d).bind fun _ => .done ()

/-- Whether a row is as the other client left it: with the blob of its login, or gone. -/
def Stands (d : Did) : Rival → Option Bytes → Prop
  | .login b, row => ∃ bs r, row = some bs ∧ Record.decode bs = .ok r ∧ r.did = d ∧ r.blob = b
  | .removal, row => row = none

end Rival

structure Scene where
  rows : Memory
  log : List (Side × Call)

/-- A turn of either client: a call is answered at once, or fails and does nothing. Whatever else
is asked may get any reply. -/
inductive Turn (side : Side) : (r : Work.Request) → Scene → r.Reply → Scene → Prop
  | answered (c : Call) (s : Scene) :
      Turn side (.store c) s (Memory.answer c s.rows).1
        ⟨(Memory.answer c s.rows).2, s.log ++ [(side, c)]⟩
  | failed (c : Call) (s : Scene) (e : Error) : Turn side (.store c) s (.error e) s
  | elsewhere (r : Work.Request) (s : Scene) (x : r.Reply) (h : ∀ c, r ≠ .store c) :
      Turn side r s x s

def start {ε : Type} (o : Rotation ε) (d : Did) (rival : Rival) (m : Memory) :
    Pool Side work Unit Scene :=
  ⟨⟨m, []⟩, [(.restore, (o.restore d).bind fun _ => .done ()), (.rival, rival.program d)]⟩

abbrev Reachable {ε : Type} (o : Rotation ε) (d : Did) (rival : Rival) (m : Memory) :
    Pool Side work Unit Scene → Prop :=
  Pool.Reachable Turn (fun _ _ => False) (start o d rival m)

/-! What either client has still to do. -/

def WritesLast (ok : Call → Prop) : Program work Unit → Prop
  | .ask r next =>
    (∃ c, r = .store c ∧ c.writes = true ∧ ok c) ∧ (∀ x, next x = .done ()) ∨
      (∀ c, r = .store c → c.writes = false) ∧ ∀ x, WritesLast ok (next x)
  | _ => True

def IsBack (d : Did) (c : Call) : Prop := ∃ bs, c = .put (Rows.key d) bs

def Settles (d : Did) (rival : Rival) (c : Call) : Prop :=
  ∀ row, rival.Stands d (c.effect (Rows.key d) row)

private theorem writesLast_put {ok : Call → Prop} {d : Did} {b : Blob}
    {f : Except Failure Record → Program work Unit}
    (hok : ∀ now prior, ok (.put (Rows.key d) (Rows.renew d b now prior).encode))
    (hf : ∀ x, f x = .done ()) : WritesLast ok ((Rows.put d b).bind f) := by
  refine .inr ⟨nofun, fun now => .inr ⟨fun c hc => by cases hc; rfl, fun x => ?_⟩⟩
  cases x with
  | error e =>
      change WritesLast ok (f (.error (.store e)))
      rw [hf]
      trivial
  | ok current =>
      refine .inl ⟨⟨_, rfl, rfl, hok _ _⟩, fun x => ?_⟩
      cases x <;> exact hf _

theorem writesLast_rival (d : Did) (rival : Rival) :
    WritesLast (Settles d rival) (rival.program d) := by
  cases rival with
  | login b =>
      refine writesLast_put (fun now prior row => ?_) fun _ => rfl
      refine ⟨_, _, if_pos rfl, Record.decode_encode _, ?_, ?_⟩
      · cases prior <;> rfl
      · cases prior <;> rfl
  | removal =>
      refine .inl ⟨⟨_, rfl, rfl, fun row => if_pos rfl⟩, fun x => ?_⟩
      cases x <;> rfl

private theorem writesLast_writeBack (d : Did) (v : Json) (t : Grant.Token) :
    WritesLast (IsBack d) ((Rotation.writeBack d v t).bind fun _ => .done ()) := by
  have hput : ∀ expiry, WritesLast (IsBack d)
      ((Rotation.putMerged d (TokenSet.merge v t expiry)).bind fun _ => .done ()) := by
    intro expiry
    cases TokenSet.merge v t expiry with
    | none => trivial
    | some b =>
        unfold Rotation.putMerged Program.onSuccess
        rw [Program.bind_assoc]
        refine writesLast_put (fun _ _ => ⟨_, rfl⟩) fun x => ?_
        cases x <;> rfl
  unfold Rotation.writeBack Rotation.expiryOf
  split
  next => exact hput _
  next => exact .inr ⟨nofun, fun now => hput _⟩

private theorem writesLast_rotate {ε : Type} (o : Rotation ε) (d : Did) (v : Json) (token : String) :
    WritesLast (IsBack d) ((o.rotate d v token).bind fun _ => .done ()) := by
  rw [Rotation.rotate_eq]
  refine .inr ⟨nofun, fun x => ?_⟩
  change WritesLast (IsBack d) (((Rotation.grantResult (Grant.Reply.token x)).onSuccess
    (Rotation.writeBack d v)).bind fun _ => .done ())
  cases Grant.Reply.token x with
  | error e => trivial
  | ok t => exact writesLast_writeBack d v t

private theorem writesLast_restoreRow {ε : Type} (o : Rotation ε) (d : Did) (r : Record)
    (v set : Json) : WritesLast (IsBack d) ((o.restoreRow d r v set).bind fun _ => .done ()) := by
  have hdue : ∀ due, WritesLast (IsBack d)
      ((Rotation.rotateIf o d r v set due).bind fun _ => .done ()) := by
    intro due
    unfold Rotation.rotateIf
    split
    next =>
      split
      next => trivial
      next => exact writesLast_rotate o d v _
    next => trivial
  rw [Rotation.restoreRow_eq]
  split
  next => trivial
  next =>
    unfold Rotation.needsRotation
    split
    next => exact hdue true
    next => exact .inr ⟨nofun, fun now => hdue _⟩

theorem writesLast_restore {ε : Type} (o : Rotation ε) (d : Did) :
    WritesLast (IsBack d) ((o.restore d).bind fun _ => .done ()) := by
  refine .inr ⟨fun c hc => by cases hc; rfl, fun x => ?_⟩
  rcases x with e | ⟨_ | bs⟩
  · trivial
  · trivial
  change WritesLast (IsBack d) (((Rotation.rowResult (Record.decode bs)).onSuccess
    (Rotation.restoreFound o d)).bind fun _ => .done ())
  cases Record.decode bs with
  | error e => trivial
  | ok r =>
      change WritesLast (IsBack d) ((Rotation.restoreFound o d (some r)).bind fun _ => .done ())
      unfold Rotation.restoreFound
      dsimp only
      split
      next => trivial
      next =>
        split
        next => trivial
        next => exact writesLast_restoreRow o d r _ _

/-! What they have written. -/

def writesOf (side : Side) (log : List (Side × Call)) : List Call :=
  log.filterMap fun q => if q.1 = side ∧ q.2.writes = true then some q.2 else none

theorem writesOf_append (side : Side) (before after : List (Side × Call)) :
    writesOf side (before ++ after) = writesOf side before ++ writesOf side after :=
  List.filterMap_append

theorem mem_writesOf {side : Side} {log : List (Side × Call)} {c : Call} :
    c ∈ writesOf side log ↔ (side, c) ∈ log ∧ c.writes = true := by
  simp only [writesOf, List.mem_filterMap, Option.ite_none_right_eq_some, Option.some.injEq]
  constructor
  · rintro ⟨q, hmem, ⟨rfl, hwrites⟩, rfl⟩
    exact ⟨hmem, hwrites⟩
  · rintro ⟨hmem, hwrites⟩
    exact ⟨_, hmem, ⟨rfl, hwrites⟩, rfl⟩

/-- Where a client stands: it has written nothing so far, or once, and is done. -/
def Stage (ok : Call → Prop) (side : Side) (log : List (Side × Call)) (p : Program work Unit) :
    Prop :=
  writesOf side log = [] ∧ WritesLast ok p ∨ ∃ c, writesOf side log = [c] ∧ ok c ∧ p = .done ()

variable {ok : Call → Prop} {side side' : Side} {s s' : Scene}

private theorem Stage.move {r : Work.Request} {next : r.Reply → Program work Unit} {x : r.Reply}
    (h : Stage ok side s.log (.ask r next)) (ht : Turn side r s x s') :
    Stage ok side s'.log (next x) := by
  obtain ⟨hnone, hlast⟩ | ⟨_, _, _, hdone⟩ := h
  · cases ht with
    | answered c =>
        unfold Stage
        dsimp only
        rw [writesOf_append, hnone, List.nil_append]
        rcases hlast with ⟨⟨c', hc, hwrites, hok⟩, hdone⟩ | ⟨hreads, hnext⟩
        · cases hc
          refine .inr ⟨c, ?_, hok, hdone _⟩
          simp [writesOf, hwrites]
        · refine .inl ⟨?_, hnext _⟩
          simp [writesOf, hreads c rfl]
    | failed c _ e =>
        rcases hlast with ⟨_, hdone⟩ | ⟨_, hnext⟩
        · exact .inl ⟨hnone, hdone (.error e) ▸ trivial⟩
        · exact .inl ⟨hnone, hnext _⟩
    | elsewhere _ _ _ hs =>
        rcases hlast with ⟨⟨c, hc, _⟩, _⟩ | ⟨_, hnext⟩
        · exact absurd hc (hs c)
        · exact .inl ⟨hnone, hnext _⟩
  · cases hdone

private theorem Stage.wait {p : Program work Unit} (h : Stage ok side s.log p) (hne : side' ≠ side)
    {r : Work.Request} {x : r.Reply} (ht : Turn side' r s x s') : Stage ok side s'.log p := by
  cases ht with
  | answered c =>
      have hsame : writesOf side (s.log ++ [(side', c)]) = writesOf side s.log := by
        rw [writesOf_append]
        simp [writesOf, hne]
      unfold Stage
      rwa [hsame]
  | failed => exact h
  | elsewhere => exact h

/-- What holds at every moment: the row is what the calls made of it, in their order, and either
client writes at most once. -/
structure Sound (d : Did) (rival : Rival) (first : Option Bytes) (P : Pool Side work Unit Scene) :
    Prop where
  ascending : Table.Ascending P.state.rows
  row : P.state.rows.get? (Rows.key d) = held (Rows.key d) first (P.state.log.map Prod.snd)
  running : ∃ p q, P.running = [(.restore, p), (.rival, q)] ∧
    Stage (IsBack d) .restore P.state.log p ∧ Stage (Settles d rival) .rival P.state.log q

private theorem turn_row {key : String} {first : Option Bytes} {r : Work.Request} {x : r.Reply}
    (hm : Table.Ascending s.rows) (hrow : s.rows.get? key = held key first (s.log.map Prod.snd))
    (ht : Turn side r s x s') :
    Table.Ascending s'.rows ∧ s'.rows.get? key = held key first (s'.log.map Prod.snd) := by
  cases ht with
  | answered c =>
      refine ⟨Memory.ascending_answer hm c, ?_⟩
      rw [List.map_append, held_append, ← hrow]
      exact Memory.get?_answer hm c key
  | failed => exact ⟨hm, hrow⟩
  | elsewhere => exact ⟨hm, hrow⟩

theorem sound_of_reachable {ε : Type} {o : Rotation ε} {d : Did} {rival : Rival} {m : Memory}
    {P : Pool Side work Unit Scene} (hm : Table.Ascending m) (h : Reachable o d rival m P) :
    Sound d rival (m.get? (Rows.key d)) P := by
  refine h.invariant (Sound d rival (m.get? (Rows.key d))) ?_ fun P Q hP hstep => ?_
  · exact ⟨hm, rfl, _, _, rfl, .inl ⟨rfl, writesLast_restore o d⟩,
      .inl ⟨rfl, writesLast_rival d rival⟩⟩
  · obtain ⟨hasc, hrow, p, q, hrunning, hp, hq⟩ := hP
    cases hstep with
    | start ha => exact ha.elim
    | @move s s' before after k r next x ht =>
        obtain ⟨hasc', hrow'⟩ := turn_row hasc hrow ht
        rcases before with _ | ⟨_, _ | ⟨_, before⟩⟩
        · cases hrunning
          exact ⟨hasc', hrow', _, _, rfl, hp.move ht, hq.wait (by decide) ht⟩
        · cases hrunning
          exact ⟨hasc', hrow', _, _, rfl, hp.wait (by decide) ht, hq.move ht⟩
        · simp at hrunning

/-! A run in which nothing stands. -/

section Run

variable {ε : Type} {o : Rotation ε} {d : Did} {rival : Rival} {m : Memory}

private theorem reachable_rival {p : Program work Unit}
    (h : Reachable o d rival m ⟨s, [(.restore, p), (.rival, rival.program d)]⟩) :
    ∃ s' before c, Reachable o d rival m ⟨s', [(.restore, p), (.rival, .done ())]⟩ ∧
      s'.log = s.log ++ before ++ [(.rival, c)] ∧ c.writes = true := by
  cases rival with
  | login b =>
      have h1 := h.step (.move [(Side.restore, p)] [] (Turn.elsewhere .now s (0 : UInt64) nofun))
      have h2 := h1.step (.move [(Side.restore, p)] [] (Turn.answered (.get (Rows.key d)) s))
      have h3 := h2.step (.move [(Side.restore, p)] [] (Turn.answered (.put (Rows.key d) _) _))
      exact ⟨_, _, _, h3, rfl, rfl⟩
  | removal =>
      have h1 := h.step (.move [(Side.restore, p)] [] (Turn.answered (.delete (Rows.key d)) s))
      exact ⟨_, [], _, h1, by rw [List.append_nil], rfl⟩

/-- A restore that is granted a token writes it back, whatever is in the row by then. -/
private theorem reachable_back {v : Json} {token : String} {x : Grant.Reply} {t : Grant.Token}
    {b : Blob} {q : Side × Program work Unit} (hx : Grant.Reply.token x = .ok t)
    (hexpiry : t.expiresIn = 0) (hmerge : TokenSet.merge v t .null = some b)
    (h : Reachable o d rival m
      ⟨s, [(.restore, (o.rotate d v token).bind fun _ => .done ()), q]⟩) :
    ∃ s' bs r, Reachable o d rival m ⟨s', [(.restore, .done ()), q]⟩ ∧
      s'.log = s.log ++ [(.restore, .get (Rows.key d)), (.restore, .put (Rows.key d) bs)] ∧
      s'.rows.get? (Rows.key d) = some bs ∧ Record.decode bs = .ok r ∧ r.blob = b := by
  rw [Rotation.rotate_eq] at h
  have h1 : Reachable o d rival m ⟨s, [(.restore, ((Rotation.grantResult (Grant.Reply.token x)).onSuccess
      (Rotation.writeBack d v)).bind fun _ => .done ()), q]⟩ :=
    h.step (.move [] [q] (Turn.elsewhere (.exchange _) s x nofun))
  rw [Rotation.grantResult_granted hx hexpiry hmerge] at h1
  have h2 := h1.step (.move [] [q] (Turn.elsewhere .now s (0 : UInt64) nofun))
  have h3 := h2.step (.move [] [q] (Turn.answered (.get (Rows.key d)) s))
  have h4 := h3.step (.move [] [q] (Turn.answered (.put (Rows.key d) _) _))
  refine ⟨_, _, _, h4, List.append_assoc _ _ _, Table.get?_insert_self _ _ _,
    Record.decode_encode _, ?_⟩
  cases (s.rows.get? (Rows.key d)).bind fun bs => (Record.decode bs).toOption <;> rfl

/-- What the other client does while a token is being granted to the restore is undone, unless it
logs in with the very blob that is written back. -/
theorem exists_undone {bs : Bytes} {r : Record} {v set : Json} {token : String} {e : ε}
    {x : Grant.Reply} {t : Grant.Token} {b : Blob} (hrow : m.get? (Rows.key d) = some bs)
    (hdecode : Record.decode bs = .ok r) (hv : Json.parse r.blob.text = .ok v)
    (hset : TokenSet.of? v = some set) (hsubject : Rotation.otherSubject? set d = none)
    (hdue : o.decode r.blob = .error e)
    (htoken : (set.get? "refresh_token").bind Json.text? = some token)
    (hx : Grant.Reply.token x = .ok t) (hexpiry : t.expiresIn = 0)
    (hmerge : TokenSet.merge v t .null = some b) (hb : rival ≠ .login b) :
    ∃ P before c after, Reachable o d rival m P ∧
      P.state.log = (.restore, .get (Rows.key d)) :: before ++ (.rival, c) :: after ∧
      c.writes = true ∧ ¬ rival.Stands d (P.state.rows.get? (Rows.key d)) := by
  have hget : Turn .restore (.store (.get (Rows.key d))) ⟨m, []⟩ (.ok (some bs))
      ⟨m, [(.restore, .get (Rows.key d))]⟩ := by
    rw [← hrow]
    exact Turn.answered (.get (Rows.key d)) ⟨m, []⟩
  have h0 : Reachable o d rival m (start o d rival m) := .refl
  have h1 := h0.step (.move [] [(Side.rival, rival.program d)] hget)
  change Reachable o d rival m ⟨⟨m, [(.restore, .get (Rows.key d))]⟩,
    [(.restore, ((Rotation.rowResult (Record.decode bs)).onSuccess
      (Rotation.restoreFound o d)).bind fun _ => .done ()), (.rival, rival.program d)]⟩ at h1
  rw [Rotation.rowResult_due hdecode hv hset hsubject hdue htoken] at h1
  obtain ⟨s₁, before, c, h2, hlog, hwrites⟩ := reachable_rival h1
  obtain ⟨s₂, bs', r', h3, hlog', hrow', hdecode', hblob⟩ := reachable_back hx hexpiry hmerge h2
  refine ⟨_, before, c, [(.restore, .get (Rows.key d)), (.restore, .put (Rows.key d) bs')], h3, ?_,
    hwrites, ?_⟩
  · change s₂.log = _
    rw [hlog', hlog]
    simp
  · change ¬ rival.Stands d (s₂.rows.get? (Rows.key d))
    rw [hrow']
    cases rival with
    | login b' =>
        rintro ⟨_, r, hbs, hr, -, rfl⟩
        cases hbs
        cases hdecode'.symm.trans hr
        exact hb (congrArg Rival.login hblob)
    | removal => exact Option.some_ne_none bs'

end Run

/-! What stands. -/

/-- After the other client's write, only a write-back is left to be written. -/
private theorem Sound.back_of_writes {d : Did} {rival : Rival} {first : Option Bytes}
    {P : Pool Side work Unit Scene} (h : Sound d rival first P) {before after : List (Side × Call)}
    {c : Call} (hlog : P.state.log = before ++ (.rival, c) :: after) (hc : c.writes = true) :
    Settles d rival c ∧ ∃ bs, ∀ q ∈ after, q.2.writes = true → q = (.restore, .put (Rows.key d) bs) := by
  obtain ⟨p, q, -, hp, hq⟩ := h.running
  have hwritten : writesOf .rival P.state.log =
      writesOf .rival before ++ c :: writesOf .rival after := by
    rw [hlog, writesOf_append]
    simp [writesOf, hc]
  have hmem : ∀ {side c'}, (side, c') ∈ after → c'.writes = true → c' ∈ writesOf side P.state.log := by
    intro side c' hc' hwrites
    rw [hlog]
    exact mem_writesOf.mpr ⟨List.mem_append_right _ (List.mem_cons_of_mem _ hc'), hwrites⟩
  obtain ⟨hnone, -⟩ | ⟨c₁, hone, hsettles, -⟩ := hq
  · simp [hwritten] at hnone
  obtain ⟨-, hafter⟩ | ⟨-, hempty⟩ := List.append_eq_singleton_iff.mp (hwritten.symm.trans hone)
  · obtain ⟨rfl, hnone⟩ := List.cons.inj hafter
    obtain ⟨bs, hback⟩ : ∃ bs, ∀ c' ∈ writesOf .restore P.state.log, c' = .put (Rows.key d) bs := by
      obtain ⟨hnone, -⟩ | ⟨_, hone, ⟨bs, rfl⟩, -⟩ := hp
      · exact ⟨[], by simp [hnone]⟩
      · exact ⟨bs, by simp [hone]⟩
    refine ⟨hsettles, bs, fun q hq hwrites => ?_⟩
    obtain ⟨side, c'⟩ := q
    cases side with
    | restore => rw [hback c' (hmem hq hwrites)]
    | rival =>
        have hwritten := mem_writesOf.mpr ⟨hq, hwrites⟩
        rw [hnone] at hwritten
        cases hwritten
  · cases hempty

/-- Whoever takes each turn, and whatever fails or is granted: what the other client has written
stands if and only if the restore has not written back after it, or wrote back just what the other
client wrote. -/
theorem stands_iff {ε : Type} {o : Rotation ε} {d : Did} {rival : Rival} {m : Memory}
    {P : Pool Side work Unit Scene} (hm : Table.Ascending m) (h : Reachable o d rival m P)
    {before after : List (Side × Call)} {c : Call}
    (hlog : P.state.log = before ++ (.rival, c) :: after) (hc : c.writes = true) :
    rival.Stands d (P.state.rows.get? (Rows.key d)) ↔
      ∀ bs, (Side.restore, Call.put (Rows.key d) bs) ∈ after → rival.Stands d (some bs) := by
  have hsound := sound_of_reachable hm h
  obtain ⟨hsettles, bs, hafter⟩ := hsound.back_of_writes hlog hc
  have hputs : ∀ c' ∈ after.map Prod.snd, c'.writes = true → c' = .put (Rows.key d) bs := by
    intro c' hc' hwrites
    obtain ⟨q, hq, rfl⟩ := List.mem_map.mp hc'
    rw [hafter q hq hwrites]
  rw [hsound.row, hlog, List.map_append, held_append, List.map_cons]
  change rival.Stands d (held _ (c.effect _ _) (after.map Prod.snd)) ↔ _
  rw [held_of_puts hputs]
  split
  next hmem =>
    obtain ⟨q, hq, hput⟩ := List.mem_map.mp hmem
    have hback : (Side.restore, Call.put (Rows.key d) bs) ∈ after := by
      rwa [← hafter q hq (by rw [hput]; rfl)]
    refine ⟨fun hstands bs' hbs' => ?_, fun hall => hall bs hback⟩
    cases hafter _ hbs' rfl
    exact hstands
  next hmem =>
    refine ⟨fun _ bs' hbs' => absurd ?_ hmem, fun _ => hsettles _⟩
    cases hafter _ hbs' rfl
    exact List.mem_map_of_mem hbs'

/-- A removal while a token is being granted to the restore. It does not stand, and so the restore has
written back after it. -/
theorem stands_iff_removal :
    let d : Did := ⟨"did:a:b", by decide⟩
    let v : Json := .object [(TokenSet.readKey, .object [("refresh_token", .text "old")])]
    let row : Bytes := (Rows.renew d ⟨v.render⟩ 1 none).encode
    let o : Rotation Unit := ⟨"client", 0, fun _ => .error ()⟩
    ∃ P before c after, Reachable o d .removal [(Rows.key d, row)] P ∧
      P.state.log = (.restore, .get (Rows.key d)) :: before ++ (.rival, c) :: after ∧
      c.writes = true ∧ ¬ Rival.removal.Stands d (P.state.rows.get? (Rows.key d)) ∧
      (∃ bs, (Side.restore, Call.put (Rows.key d) bs) ∈ after) ∧
      (Rival.removal.Stands d (P.state.rows.get? (Rows.key d)) ↔
        ∀ bs, (Side.restore, Call.put (Rows.key d) bs) ∈ after → Rival.removal.Stands d (some bs)) := by
  intro d v row o
  have hv : Json.parse v.render = .ok v := TokenSet.parse_single_key "old"
  obtain ⟨b, hmerge⟩ : ∃ b, TokenSet.merge v ⟨"access", some "new", 0, none⟩ .null = some b := ⟨_, rfl⟩
  have hother : Rival.removal ≠ .login b := nofun
  obtain ⟨P, before, c, after, hreach, hlog, hwrites, hgone⟩ :=
    exists_undone (m := [(Rows.key d, row)]) (o := o) (if_pos rfl) (Record.decode_encode _) hv
      rfl rfl rfl rfl (Grant.Reply.token_response _) rfl hmerge hother
  have hasc : Table.Ascending [(Rows.key d, row)] := List.pairwise_singleton _ _
  have hstands := stands_iff hasc hreach hlog hwrites
  refine ⟨P, before, c, after, hreach, hlog, hwrites, hgone, ?_, hstands⟩
  by_contra hnone
  exact hgone (hstands.mpr fun bs hbs => absurd ⟨bs, hbs⟩ hnone)

/-- A login and a removal that are undone. -/
theorem undone_single_key :
    let d : Did := ⟨"did:a:b", by decide⟩
    let v : Json := .object [(TokenSet.readKey, .object [("refresh_token", .text "old")])]
    let row : Bytes := (Rows.renew d ⟨v.render⟩ 1 none).encode
    let o : Rotation Unit := ⟨"client", 0, fun _ => .error ()⟩
    ∃ b, ∀ rival, rival ≠ .login b → ∃ P before c after,
      Reachable o d rival [(Rows.key d, row)] P ∧
        P.state.log = (.restore, .get (Rows.key d)) :: before ++ (.rival, c) :: after ∧
        c.writes = true ∧ ¬ rival.Stands d (P.state.rows.get? (Rows.key d)) := by
  intro d v row o
  have hv : Json.parse v.render = .ok v := TokenSet.parse_single_key "old"
  obtain ⟨b, hmerge⟩ : ∃ b, TokenSet.merge v ⟨"access", some "new", 0, none⟩ .null = some b := ⟨_, rfl⟩
  exact ⟨b, fun rival hb => exists_undone (if_pos rfl) (Record.decode_encode _) hv rfl rfl rfl rfl
    (Grant.Reply.token_response _) rfl hmerge hb⟩

end Upkeep.WriteBack
