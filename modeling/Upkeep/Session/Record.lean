import Upkeep.Did
import Upkeep.Json.Schema

/-!
Session rows. A row binds an opaque credential blob to an identifier, with the times of its
first and last writing and, once known, the expiry of the token in the blob.
-/

namespace Upkeep

/-- Serialized credential material, which only an expiry decoder or a provider looks into. -/
structure Blob where
  text : String
  deriving DecidableEq, Repr

/-- What may be shown of a blob: it holds tokens. -/
def Blob.summary (b : Blob) : String := s!"SessionBlob({(Utf8.encode b.text).length} bytes)"

/-- A restored session, bound to its identifier. -/
structure Session where
  did : Did
  blob : Blob
  deriving DecidableEq

structure Record where
  did : Did
  blob : Blob
  createdAt : UInt64
  updatedAt : UInt64
  expiresAt : Option UInt64
  deriving DecidableEq

namespace Record

def session (r : Record) : Session := ⟨r.did, r.blob⟩

/-- The members of a row in their written order; an unknown expiry is left out. -/
def toJson (r : Record) : Json :=
  .object <|
    [("did", .text r.did.text), ("blob", .text r.blob.text),
      ("created_at", .number (.natural r.createdAt)), ("updated_at", .number (.natural r.updatedAt))]
    ++ match r.expiresAt with
      | some t => [("expires_at", .number (.natural t))]
      | none => []

def render (r : Record) : String := r.toJson.render

def encode (r : Record) : Bytes := Utf8.encode r.render

/-- The value of one field. -/
inductive Value where
  | did (d : Did)
  | text (s : String)
  | count (n : UInt64)
  | time (t : Option UInt64)

/-- An identifier, given as a string. -/
def readDid : Json.Reader Did := fun bs => do
  let (s, r) ← Json.readText bs
  match Did.parse s with
  | .ok d => return (d, r)
  | .error e => throw (.refused e.message)

def as {α : Type} (f : α → Value) (read : Json.Reader α) : Json.Reader Value :=
  fun bs => (read bs).map fun p => (f p.1, p.2)

def schema : Json.Schema Value where
  title := "struct SessionRecord"
  fields :=
    [⟨"did", as .did readDid, none⟩, ⟨"blob", as .text Json.readText, none⟩,
      ⟨"created_at", as .count Json.readNatural, none⟩, ⟨"updated_at", as .count Json.readNatural, none⟩,
      ⟨"expires_at", as .time (Json.readOptional Json.readNatural), some (.time none)⟩]

/-- The row whose fields have the values given. -/
def ofValues? : List Value → Option Record
  | [.did d, .text b, .count created, .count updated, .time expires] =>
    some ⟨d, ⟨b⟩, created, updated, expires⟩
  | _ => none

def decode (bs : Bytes) : Except Json.Error Record := do
  match ofValues? (← schema.ofBytes bs) with
  | some r => return r
  | none => throw .endInValue

end Record

end Upkeep
