import Upkeep.Proofs.Json.Schema
import Upkeep.Token.Grant

/-!
Granted tokens read back. A response whose body is the written form of a token grants that token.
-/

namespace Upkeep.Grant

open Json Utf8

namespace Token

private theorem as_ok {α : Type} {f : α → Value} {read : Reader α} {bs : Bytes} {a : α} {r : Bytes}
    (h : read bs = .ok (a, r)) : as f read bs = .ok (f a, r) := by
  rw [as, h]
  rfl

private def slots (t : Token) : Slots Value :=
  [some (.text t.accessToken), t.refreshToken.map fun s => .optional (some s),
    some (.count t.expiresIn), t.tokenType.map fun s => .optional (some s)]

private theorem fills (t : Token) :
    ∃ members, t.toJson = .object members ∧ schema.Fills schema.empty members t.slots := by
  obtain ⟨access, refresh, seconds, kind⟩ := t
  refine ⟨_, rfl, ?_⟩
  have hkind : ∀ s, schema.Fills
      [some (.text access), refresh.map fun s => .optional (some s), some (.count seconds), none]
      [("token_type", .text s)]
      [some (.text access), refresh.map fun s => .optional (some s), some (.count seconds),
        some (.optional (some s))] :=
    fun s => .cons rfl rfl (fun r _ => as_ok (readOptional_text s r)) (.nil _)
  refine .cons rfl rfl (fun r _ => as_ok (readText_chars access r)) ?_
  cases refresh with
  | none =>
      refine .cons rfl rfl (fun r hr => as_ok (readNatural_chars seconds hr)) ?_
      cases kind with
      | none => exact .nil _
      | some s => exact hkind s
  | some s =>
      refine .cons rfl rfl (fun r _ => as_ok (readOptional_text s r)) ?_
      refine .cons rfl rfl (fun r hr => as_ok (readNatural_chars seconds hr)) ?_
      cases kind with
      | none => exact .nil _
      | some s => exact hkind s

/-- A token is read back from its written form. -/
theorem decode_render (t : Token) : decode (encode t.render) = .ok t := by
  obtain ⟨members, hjson, hfills⟩ := t.fills
  have hread : schema.ofBytes (encode t.render) = schema.fill t.slots := by
    rw [render, hjson]
    exact Schema.ofBytes_render hfills
  unfold decode
  rw [hread]
  obtain ⟨access, refresh, seconds, kind⟩ := t
  cases refresh <;> cases kind <;> rfl

end Token

/-- An endpoint that answers with a token grants it. -/
theorem Reply.token_response (t : Token) : token (.response 200 (encode t.render)) = .ok t := by
  unfold token
  dsimp only
  rw [if_pos (by decide), Token.decode_render]

end Upkeep.Grant
