import Upkeep.Proofs.Time.Duration
import Upkeep.Proofs.Time.Rfc3339
import Upkeep.Proofs.Token.Merge
import Upkeep.Session.Restore

/-!
What is written about the expiry of a granted token is what the decoder reads next. A blob that can
be refreshed stays one when a token is merged into it.
-/

namespace Upkeep

theorem Json.text?_reread (v : Json) : v.reread.text? = v.text? := by cases v <;> rfl

namespace Expiry

/-- A blob from which a refresh token is read, under one key only, and that names nobody but the
identifier. -/
def IsRefreshable (d : Did) (b : Blob) : Prop :=
  ∃ v set token, Json.parse b.text = .ok v ∧ ¬ TokenSet.HasBoth v ∧ TokenSet.of? v = some set ∧
    set.get? "refresh_token" = some (.text token) ∧ Rotation.otherSubject? set d = none

theorem ofTokenSet_expiryOf {set : Json} {now : UInt64} {t : Grant.Token} (hexpires : t.expiresIn ≠ 0)
    (hlast : now.toNat + t.expiresIn.toNat ≤ Rfc3339.lastPlainSecond)
    (hset : set.get? "expires_at" = some (TokenSet.expiryOf now t)) :
    ofTokenSet set = .ok (saturatingAdd now t.expiresIn) := by
  have hsum := toNat_saturatingAdd (a := now) (b := t.expiresIn)
    (Nat.lt_of_le_of_lt hlast (by decide))
  obtain ⟨text, hformat, hparse⟩ := Rfc3339.parse_format (hsum ▸ hlast)
  have hexpiry : TokenSet.expiryOf now t = .text text := by
    rw [TokenSet.expiryOf, if_neg hexpires, hformat]
  have hstated : ofTokenSet set = ofJson (.text text) := by
    rw [ofTokenSet, hset, hexpiry]
    rfl
  rw [hstated, ofJson, hparse]
  dsimp only
  rw [if_pos (Int.natCast_nonneg _), Int.toNat_natCast, UInt64.ofNat_toNat]

/-- A token that says when it expires goes into a blob that can be refreshed, and is read back. -/
theorem IsRefreshable.merge {d : Did} {b : Blob} (h : IsRefreshable d b) {v : Json}
    (hv : Json.parse b.text = .ok v) {now : UInt64} {t : Grant.Token} (hexpires : t.expiresIn ≠ 0)
    (hlast : now.toNat + t.expiresIn.toNat ≤ Rfc3339.lastPlainSecond) :
    ∃ b', TokenSet.merge v t (TokenSet.expiryOf now t) = some b' ∧ IsRefreshable d b' ∧
      decoder b' = .ok (saturatingAdd now t.expiresIn) := by
  obtain ⟨v₀, set, token, hparse, hboth, hset, htoken, hsubject⟩ := h
  cases hv.symm.trans hparse
  obtain ⟨hfound, members, rfl⟩ := TokenSet.of?_eq_some hset
  rw [← TokenSet.writtenKey_eq_foundKey hset hboth] at hfound
  obtain ⟨b', v', hmerge, hparse', hget⟩ :=
    TokenSet.merge_readBack (Json.readable_parse hv) members hfound now t
  have hset' := TokenSet.of?_written hset hboth hget
  have hmember (key : String) : (Json.object
      (TokenSet.granted t (TokenSet.expiryOf now t) members)).reread.get? key =
      ((TokenSet.granted t (TokenSet.expiryOf now t) members).get? key).map Json.reread :=
    Json.get?_reread _ key
  refine ⟨b', hmerge, ?_, ?_⟩
  · refine ⟨v', _, t.refreshToken.getD token, hparse', TokenSet.not_hasBoth_written hset hboth hget,
      hset', ?_, ?_⟩
    · rw [hmember, TokenSet.get?_granted, show Table.get? members "refresh_token" = _ from htoken]
      cases t.refreshToken <;> rfl
    · have hkept : ¬ TokenSet.IsGranted t "sub" := by simp [TokenSet.IsGranted]
      rw [Rotation.otherSubject?, hmember, TokenSet.get?_granted_of_not _ _ _ hkept]
      refine Eq.trans ?_ hsubject
      rw [Rotation.otherSubject?]
      cases hsub : (Json.object members).get? "sub" with
      | none =>
          rw [show Table.get? members "sub" = none from hsub]
          rfl
      | some x =>
          rw [show Table.get? members "sub" = some x from hsub, Option.map_some, Option.bind_some,
            Option.bind_some, Json.text?_reread]
  · have hdecode : decoder b' = ofTokenSet (Json.object
        (TokenSet.granted t (TokenSet.expiryOf now t) members)).reread := by
      rw [decoder, hparse']
      dsimp only
      rw [hset']
    rw [hdecode]
    refine ofTokenSet_expiryOf hexpires hlast ?_
    rw [hmember, TokenSet.get?_granted, if_pos rfl, Option.map_some, TokenSet.reread_expiryOf]

end Expiry

end Upkeep
