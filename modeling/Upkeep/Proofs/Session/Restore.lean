import Upkeep.Session.Restore

/-!
Restores, part by part. Each part has a name of its own, so that what holds of a restore can be
shown of its parts: what it does with the row it has read, with a decision that a rotation is due,
and with a token that was granted.
-/

namespace Upkeep.Rotation

def putMerged (d : Did) : Option Blob → Errand (Option Session)
  | none => Work.fail .noTokenSet
  | some b => (Rows.put d b).onSuccess fun _ => Work.ok (some ⟨d, b⟩)

def writeBack (d : Did) (v : Json) (t : Grant.Token) : Errand (Option Session) :=
  (expiryOf t).bind fun expiry => putMerged d (TokenSet.merge v t expiry)

def grantResult : Except Grant.Error Grant.Token → Errand Grant.Token
  | .ok t => Work.ok t
  | .error e => Work.fail (.grant e)

def rotateIf {ε : Type} (o : Rotation ε) (d : Did) (r : Record) (v set : Json) (due : Bool) :
    Errand (Option Session) :=
  if due then
    match (set.get? "refresh_token").bind Json.text? with
    | none => Work.fail (.noRefreshToken d)
    | some token => o.rotate d v token
  else Work.ok (some r.session)

def restoreFound {ε : Type} (o : Rotation ε) (d : Did) : Option Record → Errand (Option Session)
  | none => Work.ok none
  | some r =>
    match Json.parse r.blob.text with
    | .error e => Work.fail (.json e)
    | .ok v =>
      match TokenSet.of? v with
      | none => Work.fail .noTokenSet
      | some set => o.restoreRow d r v set

def rowResult : Except Json.Error Record → Errand (Option Record)
  | .ok r => Work.ok (some r)
  | .error e => Work.fail (.json e)

theorem restoreRow_eq {ε : Type} (o : Rotation ε) (d : Did) (r : Record) (v set : Json) :
    o.restoreRow d r v set = match otherSubject? set d with
      | some subject => Work.fail (.otherSubject subject d)
      | none => (o.needsRotation r.blob).bind (rotateIf o d r v set) := rfl

theorem rotate_eq {ε : Type} (o : Rotation ε) (d : Did) (v : Json) (token : String) :
    o.rotate d v token = (Work.ask (.exchange ⟨o.clientId, token⟩)).bind fun x =>
      (grantResult (Grant.Reply.token x)).onSuccess (writeBack d v) :=
  Program.bind_assoc _ _ _

/-- What a token without an expiry leads to, once it is merged. -/
theorem writeBack_eq {d : Did} {v : Json} {t : Grant.Token} {b : Blob} (hexpiry : t.expiresIn = 0)
    (hmerge : TokenSet.merge v t .null = some b) :
    writeBack d v t = (Rows.put d b).onSuccess fun _ => Work.ok (some ⟨d, b⟩) := by
  rw [writeBack, expiryOf, if_pos hexpiry, Program.bind_done, hmerge]
  rfl

theorem grantResult_granted {d : Did} {v : Json} {x : Grant.Reply} {t : Grant.Token} {b : Blob}
    (hx : Grant.Reply.token x = .ok t) (hexpiry : t.expiresIn = 0)
    (hmerge : TokenSet.merge v t .null = some b) :
    (grantResult (Grant.Reply.token x)).onSuccess (writeBack d v) =
      (Rows.put d b).onSuccess fun _ => Work.ok (some ⟨d, b⟩) := by
  rw [hx]
  exact writeBack_eq hexpiry hmerge

/-- With a token set that names nobody else, all depends on whether the token is due. -/
theorem restoreFound_eq {ε : Type} (o : Rotation ε) {d : Did} {r : Record} {v set : Json}
    (hv : Json.parse r.blob.text = .ok v) (hset : TokenSet.of? v = some set)
    (hsubject : otherSubject? set d = none) :
    restoreFound o d (some r) = (o.needsRotation r.blob).bind (rotateIf o d r v set) := by
  unfold restoreFound
  dsimp only
  rw [hv]
  dsimp only
  rw [hset]
  dsimp only
  rw [restoreRow_eq, hsubject]

/-- A row is rotated when its expiry cannot be read and nothing else is in the way. -/
theorem restoreFound_due {ε : Type} {o : Rotation ε} {d : Did} {r : Record} {v set : Json}
    {token : String} {e : ε} (hv : Json.parse r.blob.text = .ok v) (hset : TokenSet.of? v = some set)
    (hsubject : otherSubject? set d = none) (hdecode : o.decode r.blob = .error e)
    (htoken : (set.get? "refresh_token").bind Json.text? = some token) :
    restoreFound o d (some r) = o.rotate d v token := by
  have hneeds : o.needsRotation r.blob = .done true := by rw [needsRotation, hdecode]
  rw [restoreFound_eq o hv hset hsubject, hneeds, Program.bind_done, rotateIf, if_pos rfl, htoken]

theorem rowResult_due {ε : Type} {o : Rotation ε} {d : Did} {bs : Bytes} {r : Record} {v set : Json}
    {token : String} {e : ε} (hr : Record.decode bs = .ok r) (hv : Json.parse r.blob.text = .ok v)
    (hset : TokenSet.of? v = some set) (hsubject : otherSubject? set d = none)
    (hdecode : o.decode r.blob = .error e)
    (htoken : (set.get? "refresh_token").bind Json.text? = some token) :
    (rowResult (Record.decode bs)).onSuccess (restoreFound o d) = o.rotate d v token := by
  rw [hr]
  exact restoreFound_due hv hset hsubject hdecode htoken

end Upkeep.Rotation
