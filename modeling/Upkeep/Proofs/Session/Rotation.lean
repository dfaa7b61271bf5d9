import Upkeep.Proofs.Session.Record
import Upkeep.Proofs.Session.Restore
import Upkeep.Proofs.Session.Sweep
import Upkeep.Proofs.Token.Grant
import Upkeep.Proofs.Token.Merge
import Upkeep.Store.Memory

/-!
Rotations of one token by many clients. Restores of an identifier and sweeps take turns with each
other at every call of the store and every token grant, with no lock and no comparison in a
restore. What keeps them from losing a token is the endpoint: it grants a refresh token once, so
that the next grant needs a token that an earlier restore has written back.
-/

namespace Upkeep.Rotation

open Store

def BlobCarries (b : Blob) (token : String) : Prop :=
  ∃ v set, Json.parse b.text = .ok v ∧ ¬ TokenSet.HasBoth v ∧ TokenSet.of? v = some set ∧
    set.get? "refresh_token" = some (.text token)

/-- A row of the identifier whose blob carries the refresh token. -/
def Carries (d : Did) (token : String) (bs : Bytes) : Prop :=
  ∃ r, Record.decode bs = .ok r ∧ r.did = d ∧ BlobCarries r.blob token

def rowToken (bs : Bytes) : Option String := do
  let r ← (Record.decode bs).toOption
  let v ← (Json.parse r.blob.text).toOption
  let set ← TokenSet.of? v
  let token ← set.get? "refresh_token"
  token.text?

theorem Carries.rowToken {d : Did} {token : String} {bs : Bytes} (h : Carries d token bs) :
    rowToken bs = some token := by
  obtain ⟨r, hdecode, -, v, set, hparse, -, hset, htoken⟩ := h
  simp [Rotation.rowToken, hdecode, hparse, hset, htoken, Except.toOption, Json.text?]

/-- A granted token goes into the blob it was granted for. -/
theorem BlobCarries.merge {b : Blob} {token : String} (h : BlobCarries b token) {v : Json}
    (hv : Json.parse b.text = .ok v) (now : UInt64) {t : Grant.Token} {new : String}
    (ht : t.refreshToken = some new) :
    ∃ b', TokenSet.merge v t (TokenSet.expiryOf now t) = some b' ∧ BlobCarries b' new := by
  obtain ⟨v₀, set, hparse, hboth, hset, -⟩ := h
  cases hv.symm.trans hparse
  obtain ⟨hfound, members, rfl⟩ := TokenSet.of?_eq_some hset
  rw [← TokenSet.writtenKey_eq_foundKey hset hboth] at hfound
  obtain ⟨b', v', hmerge, hparse', hget⟩ :=
    TokenSet.merge_readBack (Json.readable_parse hv) members hfound now t
  refine ⟨b', hmerge, v', _, hparse', TokenSet.not_hasBoth_written hset hboth hget,
    TokenSet.of?_written hset hboth hget, ?_⟩
  rw [Json.get?_reread]
  change Option.map _ ((TokenSet.granted _ _ members).get? "refresh_token") = _
  rw [TokenSet.get?_granted, ht]
  rfl

/-! The surroundings. -/

/-- The rows, and what became of the refresh tokens of one identifier. -/
structure Ledger where
  rows : Memory
  /-- The tokens that something was granted for. -/
  spent : List String
  /-- The tokens that were granted, in order. -/
  granted : List String
  /-- The tokens in the row, each change of it in order. -/
  stored : List (Option String)

/-- Notes what a row holds now, if it is not what it held. -/
def note (stored : List (Option String)) (held : Option String) : List (Option String) :=
  if stored.getLast? = some held then stored else stored ++ [held]

/-- A turn of a client. No call of the store fails. The endpoint grants no token twice, and each
grant is a valid response with a refresh token that was never seen; what it refuses changes
nothing. Everything else may get any reply. -/
inductive Turn (d : Did) : (r : Work.Request) → Ledger → r.Reply → Ledger → Prop
  | store (c : Call) (l : Ledger) :
      Turn d (.store c) l (Memory.answer c l.rows).1
        { l with
          rows := (Memory.answer c l.rows).2
          stored := note l.stored (((Memory.answer c l.rows).2.get? (Rows.key d)).bind rowToken) }
  | refuse (g : Grant.Request) (l : Ledger) (x : Grant.Reply) (e : Grant.Error)
      (hx : Grant.Reply.token x = .error e) : Turn d (.exchange g) l x l
  | grant (g : Grant.Request) (l : Ledger) (x : Grant.Reply) (t : Grant.Token) (new : String)
      (hx : Grant.Reply.token x = .ok t) (ht : t.refreshToken = some new)
      (hspent : g.refreshToken ∉ l.spent)
      (hnew : new ∉ l.spent ∧ new ∉ l.granted ∧ some new ∉ l.stored) :
      Turn d (.exchange g) l x
        { l with spent := g.refreshToken :: l.spent, granted := l.granted ++ [new] }
  | elsewhere (r : Work.Request) (l : Ledger) (x : r.Reply) (hs : ∀ c, r ≠ .store c)
      (he : ∀ g, r ≠ .exchange g) : Turn d r l x l

inductive Kind where
  | restore
  | sweep
  deriving DecidableEq

inductive Activity (d : Did) : Kind → Work Unit → Prop
  | restore {ε : Type} (o : Rotation ε) :
      Activity d .restore ((o.restore d).bind fun _ => .done ())
  | sweep {ε : Type} (decode : Decoder ε) (pageSize budget : Nat) :
      Activity d .sweep ((Sweep.pass decode pageSize budget).bind fun _ => .done ())

/-! What a client has still to do. -/

def IsRead : Work.Request → Prop
  | .store (.get _) | .now => True
  | _ => False

def Answered : (r : Work.Request) → r.Reply → Prop
  | .store _, .error _ => False
  | _, _ => True

/-- Holds a token that was granted: whatever it reads before, it writes the token into the row of
the identifier, and ends. -/
def Delivers (d : Did) (token : String) : Program work Unit → Prop
  | .ask r next =>
    ((∃ bs, r = .store (.put (Rows.key d) bs) ∧ Carries d token bs) ∧
      ∀ x, Answered r x → next x = .done ()) ∨
      IsRead r ∧ ∀ x, Answered r x → Delivers d token (next x)
  | _ => False

/-- What a client of a kind asks for once it has read the tokens `known`: a restore tries these at
the endpoint, and what is written over a row keeps its token. -/
def Asks (k : Kind) (d : Did) (known : List String) : Work.Request → Prop
  | .store (.put ..) | .store (.delete _) => False
  | .store (.compareAndPut key expected value) =>
    key = Rows.key d → ∀ token, Carries d token expected → Carries d token value
  | .exchange g => k = .restore ∧ g.refreshToken ∈ known
  | _ => True

def Tells (d : Did) : (r : Work.Request) → r.Reply → List String → Prop
  | .store (.get key), .ok (some bs), told => key = Rows.key d → ∃ token ∈ told, Carries d token bs
  | .store (.get key), .ok none, _ => key ≠ Rows.key d
  | .store _, .error _, _ => False
  | .exchange _, x, _ => ∀ t, Grant.Reply.token x = .ok t → t.refreshToken.isSome
  | _, _, _ => True

def granted? : (r : Work.Request) → r.Reply → Option String
  | .exchange _, x =>
    match Grant.Reply.token x with
    | .ok t => t.refreshToken
    | .error _ => none
  | _, _ => none

theorem granted?_error {g : Grant.Request} {x : Grant.Reply} {e : Grant.Error}
    (h : Grant.Reply.token x = .error e) : granted? (.exchange g) x = none := by
  simp [granted?, h]

theorem granted?_ok {g : Grant.Request} {x : Grant.Reply} {t : Grant.Token}
    (h : Grant.Reply.token x = .ok t) : granted? (.exchange g) x = t.refreshToken := by
  simp [granted?, h]

/-- Holds no granted token: it asks as its kind does, and delivers what it is granted. -/
def Seeks (k : Kind) (d : Did) : List String → Program work Unit → Prop
  | known, .ask r next =>
    Asks k d known r ∧ ∀ x told, Tells d r x told →
      match granted? r x with
      | none => Seeks k d (told ++ known) (next x)
      | some token => Delivers d token (next x)
  | _, _ => True

theorem Asks.mono {k : Kind} {d : Did} {known known' : List String} (h : known ⊆ known')
    {r : Work.Request} (hr : Asks k d known r) : Asks k d known' r := by
  cases r with
  | store c => cases c <;> exact hr
  | exchange g => exact ⟨hr.1, h hr.2⟩
  | _ => exact hr

theorem Seeks.mono {k : Kind} {d : Did} {known known' : List String} (h : known ⊆ known')
    {p : Program work Unit} (hp : Seeks k d known p) : Seeks k d known' p := by
  induction p generalizing known known' with
  | done a => trivial
  | abandon => trivial
  | ask r next ih =>
      refine ⟨hp.1.mono h, fun x told htold => ?_⟩
      have hnext := hp.2 x told htold
      cases hg : granted? r x with
      | none =>
          rw [hg] at hnext
          exact ih x (List.append_subset.mpr ⟨List.subset_append_left _ _,
            fun a ha => List.mem_append_right _ (h ha)⟩) hnext
      | some token =>
          rw [hg] at hnext
          exact hnext

/-! Restores. -/

private theorem delivers_put {d : Did} {b : Blob} {token : String} (h : BlobCarries b token)
    (result : Option Session) :
    Delivers d token (((Rows.put d b).onSuccess fun _ => Work.ok result).bind fun _ => .done ()) := by
  refine .inr ⟨trivial, fun now _ => .inr ⟨trivial, fun x hx => ?_⟩⟩
  cases x with
  | error e => cases hx
  | ok current =>
      refine .inl ⟨⟨_, rfl, _, Record.decode_encode _, ?_, ?_⟩, fun x hx => ?_⟩
      · cases current.bind fun bs => (Record.decode bs).toOption <;> rfl
      · cases current.bind fun bs => (Record.decode bs).toOption <;> exact h
      · cases x with
        | error e => cases hx
        | ok u => rfl

/-- What a restore does with a token that was granted to it: it reads the clock if the token
expires, and writes. -/
private theorem delivers_writeBack {d : Did} {b : Blob} {token : String} (h : BlobCarries b token)
    {v : Json} (hv : Json.parse b.text = .ok v) {t : Grant.Token} {new : String}
    (ht : t.refreshToken = some new) :
    Delivers d new ((writeBack d v t).bind fun _ => .done ()) := by
  unfold writeBack expiryOf
  split
  next hzero =>
    obtain ⟨b', hmerge, hcarries⟩ := h.merge hv 0 ht
    rw [show TokenSet.expiryOf 0 t = .null from if_pos hzero] at hmerge
    rw [Program.bind_done, hmerge]
    exact delivers_put hcarries _
  next =>
    refine .inr ⟨trivial, fun now _ => ?_⟩
    obtain ⟨b', hmerge, hcarries⟩ := h.merge hv now ht
    change Delivers d new ((putMerged d (TokenSet.merge v t (TokenSet.expiryOf now t))).bind
      fun _ => .done ())
    rw [hmerge]
    exact delivers_put hcarries _

/-- A restore that has read a token tries it, and delivers what it is granted. -/
private theorem seeks_rotate {ε : Type} (o : Rotation ε) {d : Did} {b : Blob} {token : String}
    (h : BlobCarries b token) {v : Json} (hv : Json.parse b.text = .ok v) {known : List String}
    (hknown : token ∈ known) :
    Seeks .restore d known ((o.rotate d v token).bind fun _ => .done ()) := by
  rw [rotate_eq]
  refine ⟨⟨rfl, hknown⟩, fun x told htold => ?_⟩
  cases ht : Grant.Reply.token x with
  | error e =>
      rw [granted?_error ht]
      change Seeks .restore d _ (((grantResult (Grant.Reply.token x)).onSuccess (writeBack d v)).bind
        fun _ => .done ())
      rw [ht]
      trivial
  | ok t =>
      obtain ⟨new, hnew⟩ := Option.isSome_iff_exists.mp (htold t ht)
      rw [granted?_ok ht, hnew]
      change Delivers d new (((grantResult (Grant.Reply.token x)).onSuccess (writeBack d v)).bind
        fun _ => .done ())
      rw [ht]
      exact delivers_writeBack h hv hnew

private theorem seeks_rotateIf {ε : Type} (o : Rotation ε) {d : Did} {r : Record} {v set : Json}
    {token : String} (h : BlobCarries r.blob token) (hv : Json.parse r.blob.text = .ok v)
    (hset : TokenSet.of? v = some set) {known : List String} (hknown : token ∈ known) (due : Bool) :
    Seeks .restore d known ((rotateIf o d r v set due).bind fun _ => .done ()) := by
  have htoken : (set.get? "refresh_token").bind Json.text? = some token := by
    obtain ⟨v₀, set₀, hv₀, -, hset₀, htoken⟩ := h
    cases hv.symm.trans hv₀
    cases hset.symm.trans hset₀
    rw [htoken]
    rfl
  cases due with
  | false => trivial
  | true =>
      unfold rotateIf
      rw [if_pos rfl, htoken]
      exact seeks_rotate o h hv hknown

private theorem seeks_restoreRow {ε : Type} (o : Rotation ε) {d : Did} {r : Record} {v set : Json}
    {token : String} (h : BlobCarries r.blob token) (hv : Json.parse r.blob.text = .ok v)
    (hset : TokenSet.of? v = some set) {known : List String} (hknown : token ∈ known) :
    Seeks .restore d known ((o.restoreRow d r v set).bind fun _ => .done ()) := by
  rw [restoreRow_eq]
  cases otherSubject? set d with
  | some subject => trivial
  | none =>
      dsimp only
      unfold needsRotation
      cases o.decode r.blob with
      | error e => exact seeks_rotateIf o h hv hset hknown true
      | ok expiry =>
          exact ⟨trivial, fun now told _ => seeks_rotateIf o h hv hset
            (List.mem_append_right told hknown) (decide (expiry ≤ saturatingAdd now o.margin))⟩

theorem seeks_restore {ε : Type} (o : Rotation ε) (d : Did) :
    Seeks .restore d [] ((o.restore d).bind fun _ => .done ()) := by
  refine ⟨trivial, fun x told htold => ?_⟩
  cases x with
  | error e => cases htold
  | ok row =>
      cases row with
      | none => exact absurd rfl htold
      | some bs =>
          obtain ⟨token, hmem, r, hdecode, -, hcarries⟩ := htold rfl
          obtain ⟨v, set, hv, -, hset, -⟩ := id hcarries
          change Seeks .restore d (told ++ []) (((rowResult (Record.decode bs)).onSuccess
            (restoreFound o d)).bind fun _ => .done ())
          rw [hdecode]
          change Seeks .restore d (told ++ []) ((restoreFound o d (some r)).bind fun _ => .done ())
          unfold restoreFound
          dsimp only
          rw [hv]
          dsimp only
          rw [hset]
          exact seeks_restoreRow o hcarries hv hset (List.mem_append_left [] hmem)

/-! Sweeps. -/

/-- What never asks the endpoint seeks as long as it keeps to what may be asked. -/
private theorem seeks_of_keeps {d : Did} {p : Program work Unit}
    (h : p.Keeps (fun r x => ∃ told, Tells d r x told) (Asks .sweep d []) fun _ => True)
    (known : List String) : Seeks .sweep d known p := by
  induction p generalizing known with
  | done a => trivial
  | abandon => trivial
  | ask r next ih =>
      refine ⟨h.1.mono (List.nil_subset known), fun x told htold => ?_⟩
      have hg : granted? r x = none := by
        cases r with
        | exchange g => exact nomatch h.1.1
        | _ => rfl
      rw [hg]
      exact ih x (h.2 x ⟨told, htold⟩) _

theorem seeks_sweep {ε : Type} (decode : Decoder ε) (d : Did) (pageSize budget : Nat) :
    Seeks .sweep d [] ((Sweep.pass decode pageSize budget).bind fun _ => .done ()) := by
  -- the expiry of a row is written over with its blob as it was
  have hset (d' : Did) (b : Blob) (t : UInt64) : (Rows.setExpiry d' b t).KeepsOk
      (fun r x => ∃ told, Tells d r x told) (Asks .sweep d []) fun _ => True := by
    refine Rows.setExpiry_keepsOk trivial fun bs r _ hdecode _ => ?_
    rintro - token ⟨r', hdecode', hdid, hcarries⟩
    cases hdecode.symm.trans hdecode'
    exact ⟨_, Record.decode_encode _, hdid, hcarries⟩
  have hpass : (Sweep.pass decode pageSize budget).KeepsOk (fun r x => ∃ told, Tells d r x told)
      (Asks .sweep d []) fun _ => True :=
    Sweep.pass_keepsOk (fun _ => trivial) (fun _ _ _ _ _ => trivial) (fun d' b t _ => hset d' b t)
      budget
  exact seeks_of_keeps (Program.Keeps.bind (f := fun _ => .done ()) hpass fun _ _ => trivial) []

/-! What a turn does to the row. -/

/-- The row holds the token `last` and held the tokens `before`, all of which are spent. -/
structure Holds (d : Did) (l : Ledger) (before : List String) (last : String) : Prop where
  stored : l.stored = (before ++ [last]).map some
  row : ∃ bs, l.rows.get? (Rows.key d) = some bs ∧ Carries d last bs
  spent : ∀ token ∈ before, token ∈ l.spent

variable {d : Did} {l l' : Ledger} {before : List String} {last : String}

/-- A row that carries the token it held leaves the history as it is. -/
private theorem Holds.of_row {rows : Memory} {bs : Bytes} (h : Holds d l before last)
    (hrow : rows.get? (Rows.key d) = some bs) (hbs : Carries d last bs) :
    Holds d { l with
      rows := rows
      stored := note l.stored ((rows.get? (Rows.key d)).bind rowToken) } before last where
  stored := by
    have hheld : (rows.get? (Rows.key d)).bind rowToken = some last := by
      rw [hrow]
      exact hbs.rowToken
    have hlast : l.stored.getLast? = some (some last) := by rw [h.stored]; simp
    rw [hheld, note, if_pos hlast]
    exact h.stored
  row := ⟨bs, hrow, hbs⟩
  spent := h.spent

private theorem Holds.of_put {token : String} {bs : Bytes} (h : Holds d l before last)
    (hbs : Carries d token bs) (hspent : last ∈ l.spent) (hnew : token ∉ before ++ [last]) :
    Holds d { l with
      rows := l.rows.insert (Rows.key d) bs
      stored := note l.stored (((l.rows.insert (Rows.key d) bs).get? (Rows.key d)).bind rowToken) }
      (before ++ [last]) token where
  stored := by
    have hheld : ((l.rows.insert (Rows.key d) bs).get? (Rows.key d)).bind rowToken = some token := by
      rw [Table.get?_insert_self]
      exact hbs.rowToken
    have hlast : l.stored.getLast? ≠ some (some token) := by
      rw [h.stored]
      simp only [List.map_append, List.map_cons, List.map_nil, List.getLast?_concat]
      rintro ⟨⟩
      exact hnew (List.mem_append_right _ (List.mem_singleton_self _))
    rw [hheld, note, if_neg hlast, h.stored]
    simp
  row := ⟨bs, Table.get?_insert_self _ _ _, hbs⟩
  spent := by
    intro a ha
    rcases List.mem_append.mp ha with ha | ha
    · exact h.spent a ha
    · rw [List.mem_singleton.mp ha]
      exact hspent

private theorem compareAndPut_carries {rows : Memory} {key : String} {bs expected value : Bytes}
    (hrow : rows.get? (Rows.key d) = some bs) (hbs : Carries d last bs)
    (h : key = Rows.key d → ∀ token, Carries d token expected → Carries d token value) :
    ∃ bs', (rows.compareAndPut key expected value).2.get? (Rows.key d) = some bs' ∧
      Carries d last bs' := by
  unfold Memory.compareAndPut
  split
  next hexpected =>
    by_cases hkey : Rows.key d = key
    · cases hkey
      cases hrow.symm.trans hexpected
      exact ⟨value, Table.get?_insert_self _ _ _, h rfl last hbs⟩
    · exact ⟨bs, (Table.get?_insert_of_ne _ _ hkey).trans hrow, hbs⟩
  next => exact ⟨bs, hrow, hbs⟩

/-- A call that may be asked leaves the token in the row, and tells no other one. -/
private theorem call_asks {k : Kind} {known : List String} {c : Call} (h : Holds d l before last)
    (hc : Asks k d known (.store c)) :
    Holds d { l with
      rows := (Memory.answer c l.rows).2
      stored := note l.stored (((Memory.answer c l.rows).2.get? (Rows.key d)).bind rowToken) }
        before last ∧
      Tells d (.store c) (Memory.answer c l.rows).1 [last] := by
  obtain ⟨bs, hrow, hbs⟩ := h.row
  cases c with
  | scan start after limit => exact ⟨h.of_row hrow hbs, trivial⟩
  | get key =>
      refine ⟨h.of_row hrow hbs, ?_⟩
      change Tells d (.store (.get key)) (.ok (l.rows.get? key)) [last]
      cases hget : l.rows.get? key with
      | none =>
          rintro rfl
          cases hrow.symm.trans hget
      | some bs' =>
          rintro rfl
          cases hrow.symm.trans hget
          exact ⟨last, List.mem_singleton_self last, hbs⟩
  | put key value => exact hc.elim
  | compareAndPut key expected value =>
      obtain ⟨bs', hrow', hbs'⟩ := compareAndPut_carries hrow hbs hc
      exact ⟨h.of_row hrow' hbs', trivial⟩
  | delete key => exact hc.elim

/-- A turn of a client that has read no tokens but those of the row. Either nothing is granted and
the row keeps its token, or the last token of the row was not spent and is now, and a new one is
granted for it. -/
private theorem turn_asks {k : Kind} {r : Work.Request} {x : r.Reply} (h : Holds d l before last)
    (hr : Asks k d (before ++ [last]) r) (ht : Turn d r l x l') :
    Holds d l' before last ∧ Tells d r x [last] ∧
      (granted? r x = none ∧ l'.granted = l.granted ∧ l'.spent = l.spent ∨
        ∃ new, granted? r x = some new ∧ l'.granted = l.granted ++ [new] ∧ k = .restore ∧
          last ∉ l.spent ∧ last ∈ l'.spent ∧ new ∉ before ++ [last]) := by
  cases ht with
  | store c =>
      obtain ⟨h', htells⟩ := call_asks h hr
      exact ⟨h', htells, .inl ⟨rfl, rfl, rfl⟩⟩
  | refuse g _ _ e hx =>
      refine ⟨h, fun t ht => ?_, .inl ⟨granted?_error hx, rfl, rfl⟩⟩
      cases hx.symm.trans ht
  | grant g _ _ t new hx ht hspent hnew =>
      have hlast : g.refreshToken = last := by
        rcases List.mem_append.mp hr.2 with hbefore | hlast
        · exact absurd (h.spent _ hbefore) hspent
        · exact List.mem_singleton.mp hlast
      have hunseen : new ∉ before ++ [last] := by
        intro hmem
        refine hnew.2.2 ?_
        rw [h.stored]
        exact List.mem_map_of_mem hmem
      refine ⟨⟨h.stored, h.row, fun a ha => List.mem_cons_of_mem _ (h.spent a ha)⟩, ?_, .inr ?_⟩
      · intro t' ht'
        cases hx.symm.trans ht'
        rw [ht]
        rfl
      · exact ⟨new, (granted?_ok hx).trans ht, rfl, hr.1, hlast ▸ hspent,
          hlast ▸ List.mem_cons_self, hunseen⟩
  | elsewhere _ _ _ hs he =>
      refine ⟨h, ?_, .inl ⟨?_, rfl, rfl⟩⟩
      all_goals
        cases r with
        | store c => exact absurd rfl (hs c)
        | exchange g => exact absurd rfl (he g)
        | _ => trivial

/-- A turn of a client that seeks: it seeks still, or was granted a token for the last one of the
row, and delivers it. -/
private theorem turn_seeks {k : Kind} {r : Work.Request} {x : r.Reply}
    {next : r.Reply → Program work Unit} (h : Holds d l before last)
    (hp : Seeks k d (before ++ [last]) (.ask r next)) (ht : Turn d r l x l') :
    Holds d l' before last ∧
      (l'.granted = l.granted ∧ l'.spent = l.spent ∧ Seeks k d (before ++ [last]) (next x) ∨
        ∃ new, l'.granted = l.granted ++ [new] ∧ k = .restore ∧ last ∉ l.spent ∧ last ∈ l'.spent ∧
          new ∉ before ++ [last] ∧ Delivers d new (next x)) := by
  obtain ⟨h', htold, hgrant⟩ := turn_asks h hp.1 ht
  have hnext := hp.2 x [last] htold
  rcases hgrant with ⟨hnone, hgranted, hspent⟩ | ⟨new, hsome, hgranted, hk, hlast, hspent, hnew⟩
  · rw [hnone] at hnext
    exact ⟨h', .inl ⟨hgranted, hspent, hnext.mono (by simp)⟩⟩
  · rw [hsome] at hnext
    exact ⟨h', .inr ⟨new, hgranted, hk, hlast, hspent, hnew, hnext⟩⟩

/-- What it asks the endpoint once the last token is spent is refused. -/
private theorem turn_seeks_spent {k : Kind} {r : Work.Request} {x : r.Reply}
    {next : r.Reply → Program work Unit} (h : Holds d l before last) (hspent : last ∈ l.spent)
    (hp : Seeks k d (before ++ [last]) (.ask r next)) (ht : Turn d r l x l') :
    Holds d l' before last ∧ l'.granted = l.granted ∧ l'.spent = l.spent ∧
      Seeks k d (before ++ [last]) (next x) := by
  obtain ⟨h', hnext | ⟨_, _, _, hlast, _⟩⟩ := turn_seeks h hp ht
  · exact ⟨h', hnext⟩
  · exact absurd hspent hlast

/-- A turn of a client that holds a granted token. Either it reads, and holds the token still, or
the token is in the row and the client is done. -/
private theorem turn_delivers {token : String} {r : Work.Request} {x : r.Reply}
    {next : r.Reply → Program work Unit} (h : Holds d l before last) (hspent : last ∈ l.spent)
    (hnew : token ∉ before ++ [last]) (hp : Delivers d token (.ask r next)) (ht : Turn d r l x l') :
    l'.granted = l.granted ∧ l'.spent = l.spent ∧
      (Holds d l' before last ∧ Delivers d token (next x) ∨
        Holds d l' (before ++ [last]) token ∧ next x = .done ()) := by
  obtain ⟨bs, hrow, hbs⟩ := h.row
  rcases hp with ⟨⟨value, rfl, hvalue⟩, hnext⟩ | ⟨hread, hnext⟩
  · cases ht with
    | store c =>
        refine ⟨rfl, rfl, .inr ⟨h.of_put hvalue hspent hnew, hnext _ trivial⟩⟩
    | elsewhere _ _ _ hs he => exact absurd rfl (hs _)
  · cases ht with
    | store c =>
        cases c with
        | get key => exact ⟨rfl, rfl, .inl ⟨h.of_row hrow hbs, hnext _ trivial⟩⟩
        | _ => exact hread.elim
    | refuse | grant => exact hread.elim
    | elsewhere _ _ _ hs he =>
        refine ⟨rfl, rfl, .inl ⟨h, hnext _ ?_⟩⟩
        cases r with
        | store c => exact absurd rfl (hs c)
        | _ => trivial

/-! What holds at every moment. -/

def AllSeek (d : Did) (known : List String) (ps : List (Kind × Program work Unit)) : Prop :=
  ∀ q ∈ ps, Seeks q.1 d known q.2

theorem allSeek_insert {known : List String} {ps qs : List (Kind × Program work Unit)} {k : Kind}
    {p : Program work Unit} :
    AllSeek d known (ps ++ (k, p) :: qs) ↔ Seeks k d known p ∧ AllSeek d known (ps ++ qs) := by
  simp only [AllSeek, List.forall_mem_append, List.forall_mem_cons]
  exact and_left_comm

theorem AllSeek.mono {known known' : List String} (h : known ⊆ known')
    {ps : List (Kind × Program work Unit)} (hps : AllSeek d known ps) : AllSeek d known' ps :=
  fun q hq => (hps q hq).mono h

/-- Nothing that was granted is missing from the row, or one token is, and a restore holds it. -/
inductive Consistent (d : Did) (first : String) (l : Ledger) :
    List (Kind × Program work Unit) → Prop
  | settled {before : List String} {last : String} {ps : List (Kind × Program work Unit)}
      (h : Holds d l before last) (hgranted : first :: l.granted = before ++ [last])
      (hps : AllSeek d (before ++ [last]) ps) : Consistent d first l ps
  | pending {before : List String} {last token : String}
      (ps qs : List (Kind × Program work Unit)) {p : Program work Unit}
      (h : Holds d l before last) (hgranted : first :: l.granted = before ++ [last] ++ [token])
      (hspent : last ∈ l.spent) (hnew : token ∉ before ++ [last]) (hp : Delivers d token p)
      (hothers : AllSeek d (before ++ [last]) (ps ++ qs)) :
      Consistent d first l (ps ++ (.restore, p) :: qs)

private theorem seeks_of_activity {k : Kind} {p : Program work Unit} (h : Activity d k p)
    (known : List String) : Seeks k d known p := by
  cases h with
  | restore o => exact (seeks_restore o d).mono (List.nil_subset _)
  | sweep decode pageSize budget =>
      exact (seeks_sweep decode d pageSize budget).mono (List.nil_subset _)

private theorem Consistent.start {first : String} {ps : List (Kind × Program work Unit)} {k : Kind}
    {p : Program work Unit} (h : Consistent d first l ps) (ha : Activity d k p) :
    Consistent d first l (ps ++ [(k, p)]) := by
  cases h with
  | @settled before last _ h hgranted hps =>
      refine .settled h hgranted (allSeek_insert.mpr ⟨seeks_of_activity ha _, ?_⟩)
      rwa [List.append_nil]
  | @pending before last token ps qs p' h hgranted hspent hnew hp hothers =>
      rw [List.append_assoc]
      refine .pending ps (qs ++ [(k, p)]) h hgranted hspent hnew hp ?_
      rw [← List.append_assoc]
      refine allSeek_insert.mpr ⟨seeks_of_activity ha _, ?_⟩
      rwa [List.append_nil]

private theorem append_cons_cases {α : Type} {ps qs ps' qs' : List α} {a b : α}
    (h : ps ++ a :: qs = ps' ++ b :: qs') :
    (ps = ps' ∧ a = b ∧ qs = qs') ∨ (∃ m, ps' = ps ++ a :: m ∧ qs = m ++ b :: qs') ∨
      ∃ m, ps = ps' ++ b :: m ∧ qs' = m ++ a :: qs := by
  rcases List.append_eq_append_iff.mp h with ⟨m, rfl, hm⟩ | ⟨m, rfl, hm⟩
  all_goals
    cases m with
    | nil => simp_all
    | cons c m => simp_all

private theorem Consistent.move {first : String} {ps qs : List (Kind × Program work Unit)} {k : Kind}
    {r : Work.Request} {next : r.Reply → Program work Unit} {x : r.Reply}
    (h : Consistent d first l (ps ++ (k, .ask r next) :: qs)) (ht : Turn d r l x l') :
    Consistent d first l' (ps ++ (k, next x) :: qs) := by
  generalize hrunning : ps ++ (k, Program.ask r next) :: qs = running at h
  cases h with
  | settled h hgranted hps =>
      subst hrunning
      obtain ⟨hmoved, hothers⟩ := allSeek_insert.mp hps
      obtain ⟨h', ⟨hg, -, hnext⟩ | ⟨new, hg, rfl, -, hspent, hnew, hnext⟩⟩ :=
        turn_seeks h hmoved ht
      · exact .settled h' (hg ▸ hgranted) (allSeek_insert.mpr ⟨hnext, hothers⟩)
      · refine .pending ps qs h' ?_ hspent hnew hnext hothers
        rw [hg, ← hgranted]
        rfl
  | @pending before last token ps' qs' p h hgranted hspent hnew hp hothers =>
      rcases append_cons_cases hrunning with ⟨rfl, hmoved, rfl⟩ | ⟨m, rfl, rfl⟩ | ⟨m, rfl, rfl⟩
      · -- The client that holds the token moves.
        cases hmoved
        obtain ⟨hg, hs, ⟨h', hnext⟩ | ⟨h', hdone⟩⟩ := turn_delivers h hspent hnew hp ht
        · exact .pending ps qs h' (hg ▸ hgranted) (hs ▸ hspent) hnew hnext hothers
        · refine .settled h' (hg ▸ hgranted) (allSeek_insert.mpr ⟨?_, ?_⟩)
          · rw [hdone]
            trivial
          · exact hothers.mono (List.subset_append_left _ _)
      · rw [List.append_assoc, List.cons_append] at hothers
        obtain ⟨hmoved, hothers⟩ := allSeek_insert.mp hothers
        obtain ⟨h', hg, hs, hnext⟩ := turn_seeks_spent h hspent hmoved ht
        rw [← List.cons_append, ← List.append_assoc]
        refine .pending (ps ++ (k, next x) :: m) qs' h' (hg ▸ hgranted) (hs ▸ hspent) hnew hp ?_
        rw [List.append_assoc, List.cons_append]
        exact allSeek_insert.mpr ⟨hnext, hothers⟩
      · rw [← List.append_assoc] at hothers
        obtain ⟨hmoved, hothers⟩ := allSeek_insert.mp hothers
        obtain ⟨h', hg, hs, hnext⟩ := turn_seeks_spent h hspent hmoved ht
        rw [List.append_assoc, List.cons_append]
        refine .pending ps' (m ++ (k, next x) :: qs) h' (hg ▸ hgranted) (hs ▸ hspent) hnew hp ?_
        rw [← List.append_assoc]
        exact allSeek_insert.mpr ⟨hnext, hothers⟩

/-- Whatever restores and sweeps run, and in whatever order they take turns: at most one token
that was granted is not in the row, a restore that is running will write it, and the row has held
the other ones in the order they were granted. -/
theorem granted_stored_of_reachable {first : String} {rows : Memory} {spent : List String}
    {bs : Bytes} {P : Pool Kind work Unit Ledger} (hrow : rows.get? (Rows.key d) = some bs)
    (hbs : Carries d first bs)
    (h : Pool.Reachable (fun _ => Turn d) (Activity d) ⟨⟨rows, spent, [], [some first]⟩, []⟩ P) :
    ∃ (last : String) (pending : Option String),
      (∃ bs, P.state.rows.get? (Rows.key d) = some bs ∧ Carries d last bs) ∧
        P.state.stored.getLast? = some (some last) ∧
        (first :: P.state.granted).map some = P.state.stored ++ pending.toList.map some ∧
        ∀ token ∈ pending, some token ∉ P.state.stored ∧
          ∃ p, (Kind.restore, p) ∈ P.running ∧ Delivers d token p := by
  have hstart : Holds d ⟨rows, spent, [], [some first]⟩ [] first :=
    ⟨rfl, ⟨bs, hrow, hbs⟩, fun _ hmem => nomatch hmem⟩
  have hconsistent : Consistent d first P.state P.running := by
    refine h.invariant (fun P => Consistent d first P.state P.running) ?_ fun P Q hP hstep => ?_
    · exact .settled hstart rfl fun q hq => nomatch hq
    · cases hstep with
      | start ha => exact hP.start ha
      | move before after ht => exact hP.move ht
  generalize P.running = running at hconsistent ⊢
  cases hconsistent with
  | @settled before last _ h hgranted _ =>
      refine ⟨last, none, h.row, ?_, ?_, fun token hmem => nomatch hmem⟩
      · simp [h.stored]
      · rw [hgranted, h.stored]
        exact (List.append_nil _).symm
  | @pending before last token ps qs p h hgranted _ hnew hp _ =>
      refine ⟨last, some token, h.row, ?_, ?_, fun token' hmem => ?_⟩
      · simp [h.stored]
      · rw [hgranted, h.stored, List.map_append]
        rfl
      · cases hmem
        rw [h.stored]
        refine ⟨fun hmem => ?_, p, List.mem_append_right _ List.mem_cons_self, hp⟩
        obtain ⟨a, ha, e⟩ := List.mem_map.mp hmem
        cases e
        exact hnew ha

/-! A run with a grant in it. -/

section Run

variable {ε : Type} {o : Rotation ε} {rows : Memory} {first new : String}

/-- A call that changes nothing is no change of the row either. -/
theorem Turn.read {l : Ledger} {c : Call} (hrows : (Memory.answer c l.rows).2 = l.rows)
    (hstored : l.stored.getLast? = some ((l.rows.get? (Rows.key d)).bind rowToken)) :
    Turn d (.store c) l (Memory.answer c l.rows).1 l := by
  have h := Turn.store (d := d) c l
  rwa [hrows, note, if_pos hstored] at h

/-- A restore is granted a token for the one in the row, a sweep takes a turn, and the restore writes
the token back. -/
theorem exists_granted {bs : Bytes} {r : Record} {v set : Json} {e : ε} {x : Grant.Reply}
    {t : Grant.Token} {b : Blob} (hrow : rows.get? (Rows.key d) = some bs)
    (hdecode : Record.decode bs = .ok r) (hv : Json.parse r.blob.text = .ok v)
    (hset : TokenSet.of? v = some set) (hsubject : otherSubject? set d = none)
    (hdue : o.decode r.blob = .error e)
    (htoken : (set.get? "refresh_token").bind Json.text? = some first)
    (hfirst : rowToken bs = some first) (hx : Grant.Reply.token x = .ok t)
    (ht : t.refreshToken = some new) (hne : new ≠ first) (hexpiry : t.expiresIn = 0)
    (hmerge : TokenSet.merge v t .null = some b) :
    ∃ p q l, Pool.Reachable (fun _ => Turn d) (Activity d) ⟨⟨rows, [], [], [some first]⟩, []⟩
        ⟨⟨rows, [first], [new], [some first]⟩, [(.restore, p), (.sweep, q)]⟩ ∧
      Pool.Reachable (fun _ => Turn d) (Activity d) ⟨⟨rows, [], [], [some first]⟩, []⟩
        ⟨l, [(.restore, .done ()), (.sweep, q)]⟩ ∧ l.granted = [new] := by
  have hheld : (rows.get? (Rows.key d)).bind rowToken = some first := by
    rw [hrow, Option.bind_some, hfirst]
  have hread {spent granted : List String} {c : Call} (hc : (Memory.answer c rows).2 = rows) :
      Turn d (.store c) ⟨rows, spent, granted, [some first]⟩ (Memory.answer c rows).1
        ⟨rows, spent, granted, [some first]⟩ :=
    .read hc (by rw [hheld]; rfl)
  have hget : Turn d (.store (.get (Rows.key d))) ⟨rows, [], [], [some first]⟩ (.ok (some bs))
      ⟨rows, [], [], [some first]⟩ := by
    rw [← hrow]
    exact hread rfl
  let q₀ : Kind × Program work Unit := (.sweep, (Sweep.pass o.decode 1 1).bind fun _ => .done ())
  -- The restore reads the row, and sees that its token is due.
  have h0 : Pool.Reachable (fun _ => Turn d) (Activity d) ⟨⟨rows, [], [], [some first]⟩, []⟩
      ⟨⟨rows, [], [], [some first]⟩, [(.restore, (o.restore d).bind fun _ => .done ()), q₀]⟩ :=
    (Pool.Reachable.refl.step (.start (.restore o))).step (.start (.sweep o.decode 1 1))
  have h1 := h0.step (.move [] [q₀] hget)
  change Pool.Reachable _ _ _ ⟨_, [(.restore, ((rowResult (Record.decode bs)).onSuccess
    (restoreFound o d)).bind fun _ => .done ()), q₀]⟩ at h1
  rw [rowResult_due hdecode hv hset hsubject hdue htoken, rotate_eq] at h1
  -- It is granted another one.
  have hgrant : Turn d (.exchange ⟨o.clientId, first⟩) ⟨rows, [], [], [some first]⟩ x
      ⟨rows, [first], [new], [some first]⟩ :=
    .grant ⟨o.clientId, first⟩ _ x t new hx ht nofun ⟨nofun, nofun, by simpa using hne⟩
  have h2 : Pool.Reachable _ _ _ ⟨_, [(.restore, ((grantResult (Grant.Reply.token x)).onSuccess
      (writeBack d v)).bind fun _ => .done ()), q₀]⟩ := h1.step (.move [] [q₀] hgrant)
  rw [grantResult_granted hx hexpiry hmerge] at h2
  -- The sweep lists the rows in between.
  have h3 := h2.step (.move [_] [] (hread (c := .scan Rows.start none 1) rfl))
  have h4 := ((h3.step (.move [] [_] (Turn.elsewhere .now _ (0 : UInt64) nofun nofun))).step
    (.move [] [_] (hread (c := .get (Rows.key d)) rfl))).step
    (.move [] [_] (Turn.store (.put (Rows.key d) _) _))
  exact ⟨_, _, _, h3, h4, rfl⟩

end Run

/-- A token is granted, and is pending until the restore has written it back. -/
theorem granted_stored_of_reachable_written :
    let d : Did := ⟨"did:a:b", by decide⟩
    let v : Json := .object [(TokenSet.readKey, .object [("refresh_token", .text "old")])]
    let row : Bytes := (Rows.renew d ⟨v.render⟩ 1 none).encode
    let start : Pool Kind work Unit Ledger := ⟨⟨[(Rows.key d, row)], [], [], [some "old"]⟩, []⟩
    Carries d "old" row ∧ ∃ P Q,
      Pool.Reachable (fun _ => Turn d) (Activity d) start P ∧
        Pool.Reachable (fun _ => Turn d) (Activity d) start Q ∧
      P.state.granted = ["new"] ∧ P.state.stored = [some "old"] ∧
        (∃ p, (Kind.restore, p) ∈ P.running ∧ Delivers d "new" p) ∧
      Q.state.granted = ["new"] ∧ Q.state.stored = [some "old", some "new"] ∧
        ∃ bs, Q.state.rows.get? (Rows.key d) = some bs ∧ Carries d "new" bs := by
  intro d v row start
  have hv : Json.parse v.render = .ok v := TokenSet.parse_single_key "old"
  have hcarries : Carries d "old" row :=
    ⟨_, Record.decode_encode _, rfl, v, _, hv, nofun, rfl, rfl⟩
  have hrow : Table.get? [(Rows.key d, row)] (Rows.key d) = some row := if_pos rfl
  obtain ⟨b, hmerge⟩ : ∃ b, TokenSet.merge v ⟨"access", some "new", 0, none⟩ .null = some b := ⟨_, rfl⟩
  obtain ⟨p, q, l, hpending, hwritten, hgranted⟩ :=
    exists_granted (o := ⟨"client", 0, fun _ => Except.error ()⟩) hrow (Record.decode_encode _) hv
      rfl rfl rfl rfl hcarries.rowToken (Grant.Reply.token_response _) rfl (by decide) rfl hmerge
  refine ⟨hcarries, _, _, hpending, hwritten, rfl, rfl, ?_, hgranted, ?_⟩
  · obtain ⟨last, pending, -, -, hstored, hdelivers⟩ :=
      granted_stored_of_reachable hrow hcarries hpending
    cases pending with
    | none => cases hstored
    | some token =>
        cases hstored
        exact (hdelivers _ rfl).2
  · obtain ⟨last, pending, hheld, hlast, hstored, hdelivers⟩ :=
      granted_stored_of_reachable hrow hcarries hwritten
    cases pending with
    | some token =>
        -- No client that runs holds a token.
        obtain ⟨-, p, hmem, hp⟩ := hdelivers _ rfl
        rcases List.mem_cons.mp hmem with hdone | hmem
        · cases hdone
          exact hp.elim
        · cases List.mem_singleton.mp hmem
    | none =>
        rw [hgranted, Option.toList_none, List.map_nil, List.append_nil] at hstored
        rw [← hstored] at hlast
        cases hlast
        exact ⟨hstored.symm, hheld⟩

end Upkeep.Rotation
