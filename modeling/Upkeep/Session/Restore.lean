import Upkeep.Session.Rows
import Upkeep.Token.Expiry
import Upkeep.Token.Merge

/-!
Restoring a session from its row. A token that is about to expire, or whose expiry cannot be
read, is rotated: the refresh token is exchanged for a new one, which is written back to the row.
-/

namespace Upkeep

/-- How tokens are rotated: for which client, how long before they expire, and what tells when. -/
structure Rotation (ε : Type) where
  clientId : String
  /-- In seconds. -/
  margin : UInt64
  decode : Decoder ε

namespace Rotation

variable {ε : Type}

/-- Whether a blob's token is to be rotated. -/
def needsRotation (o : Rotation ε) (b : Blob) : Work Bool :=
  match o.decode b with
  | .error _ => .done true
  | .ok expiry => Work.now.bind fun now => .done (decide (expiry ≤ saturatingAdd now o.margin))

/-- The token that the endpoint grants for a refresh token. -/
def exchange (o : Rotation ε) (refreshToken : String) : Errand Grant.Token :=
  (Work.ask (.exchange ⟨o.clientId, refreshToken⟩)).bind fun reply =>
    match Grant.Reply.token reply with
    | .ok t => Work.ok t
    | .error e => Work.fail (.grant e)

/-- The expiry of a token granted now. The clock is not asked about a token without one. -/
def expiryOf (t : Grant.Token) : Work Json :=
  if t.expiresIn = 0 then .done .null
  else Work.now.bind fun now => .done (TokenSet.expiryOf now t)

/-- Exchanges a refresh token and writes what is granted into the blob's value and the row. -/
def rotate (o : Rotation ε) (d : Did) (v : Json) (refreshToken : String) : Errand (Option Session) :=
  (o.exchange refreshToken).onSuccess fun t =>
    (expiryOf t).bind fun expiry =>
      match TokenSet.merge v t expiry with
      | none => Work.fail .noTokenSet
      | some b => (Rows.put d b).onSuccess fun _ => Work.ok (some ⟨d, b⟩)

/-- The subject that a token set names, if it is a text and not the identifier. -/
def otherSubject? (set : Json) (d : Did) : Option String :=
  ((set.get? "sub").bind Json.text?).filter fun s => s ≠ d.text

/-- Goes on with a row whose blob has the value `v` and the token set `set`. -/
def restoreRow (o : Rotation ε) (d : Did) (r : Record) (v set : Json) : Errand (Option Session) :=
  match otherSubject? set d with
  | some subject => Work.fail (.otherSubject subject d)
  | none =>
    (o.needsRotation r.blob).bind fun due =>
      if due then
        match (set.get? "refresh_token").bind Json.text? with
        | none => Work.fail (.noRefreshToken d)
        | some refreshToken => o.rotate d v refreshToken
      else Work.ok (some r.session)

/-- The session of an identifier; none if it has no row. -/
def restore (o : Rotation ε) (d : Did) : Errand (Option Session) :=
  (Rows.get d).onSuccess fun
    | none => Work.ok none
    | some r =>
      match Json.parse r.blob.text with
      | .error e => Work.fail (.json e)
      | .ok v =>
        match TokenSet.of? v with
        | none => Work.fail .noTokenSet
        | some set => o.restoreRow d r v set

end Rotation

end Upkeep
