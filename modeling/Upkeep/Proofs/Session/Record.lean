import Upkeep.Proofs.Did.Grammar
import Upkeep.Proofs.Json.Schema
import Upkeep.Session.Record

/-!
Rows read back. Whatever a row holds, its written form is read as that row.
-/

namespace Upkeep.Record

open Json Utf8

private theorem as_ok {α : Type} {f : α → Value} {read : Reader α} {bs : Bytes} {a : α} {r : Bytes}
    (h : read bs = .ok (a, r)) : as f read bs = .ok (f a, r) := by
  rw [as, h]
  rfl

private theorem readDid_chars (d : Did) (r : Bytes) :
    readDid (octets (Json.text d.text).chars ++ r) = .ok (d, r) := by
  unfold readDid
  rw [readText_chars]
  simp only [bind, Except.bind, Did.parse_text]
  rfl

private def slots (r : Record) : Slots Value :=
  [some (.did r.did), some (.text r.blob.text), some (.count r.createdAt), some (.count r.updatedAt),
    r.expiresAt.map fun t => .time (some t)]

private theorem fills (r : Record) :
    ∃ members, r.toJson = .object members ∧ schema.Fills schema.empty members r.slots := by
  obtain ⟨did, blob, created, updated, expires⟩ := r
  refine ⟨_, rfl, ?_⟩
  refine .cons rfl rfl (fun r _ => as_ok (readDid_chars did r)) ?_
  refine .cons rfl rfl (fun r _ => as_ok (readText_chars blob.text r)) ?_
  refine .cons rfl rfl (fun r hr => as_ok (readNatural_chars created hr)) ?_
  refine .cons rfl rfl (fun r hr => as_ok (readNatural_chars updated hr)) ?_
  cases expires with
  | none => exact .nil _
  | some t => exact .cons rfl rfl (fun r hr => as_ok (readOptional_natural t hr)) (.nil _)

/-- A row is read back from its written form. -/
theorem decode_encode (r : Record) : decode r.encode = .ok r := by
  obtain ⟨members, hjson, hfills⟩ := r.fills
  have hread : schema.ofBytes r.encode = schema.fill r.slots := by
    rw [encode, Record.render, hjson]
    exact Schema.ofBytes_render hfills
  unfold decode
  rw [hread]
  obtain ⟨did, blob, created, updated, expires⟩ := r
  cases expires <;> rfl

end Upkeep.Record
