import Upkeep.Proofs.Json.RoundTrip
import Upkeep.Proofs.Text.Base64Url
import Upkeep.Token.Expiry

/-!
The expiry in a signed token. A token is cut at its points, and neither the point nor the padding
occurs in the written form of the claims, so the claims that were encoded are the ones that are read,
whatever signature follows them. A token set that states no expiry of its own has the token's.
-/

namespace Upkeep.Expiry

/-! The segments of a text. -/

theorem exists_segments (cs : List Char) : ∃ part rest, segments cs = part :: rest := by
  cases cs with
  | nil => exact ⟨[], [], rfl⟩
  | cons c cs =>
      rw [segments]
      split
      next => exact ⟨_, _, rfl⟩
      next => split <;> exact ⟨_, _, rfl⟩

theorem segments_cons {cs part : List Char} {rest : List (List Char)}
    (h : segments cs = part :: rest) (c : Char) :
    segments (c :: cs) = if c = '.' then [] :: part :: rest else (c :: part) :: rest := by
  rw [segments, h]

/-- A part without a point is the first segment if a point follows. -/
theorem segments_append {part : List Char} (h : ∀ c ∈ part, c ≠ '.') (rest : List Char) :
    segments (part ++ '.' :: rest) = part :: segments rest := by
  induction part with
  | nil =>
      obtain ⟨first, more, hrest⟩ := exists_segments rest
      rw [List.nil_append, segments_cons hrest, if_pos rfl, hrest]
  | cons c part ih =>
      have ih := ih fun c' hc' => h c' (List.mem_cons_of_mem c hc')
      rw [List.cons_append, segments_cons ih, if_neg (h c List.mem_cons_self)]

theorem length_segments (cs : List Char) : (segments cs).length = cs.count '.' + 1 := by
  induction cs with
  | nil => rfl
  | cons c cs ih =>
      obtain ⟨part, rest, hcs⟩ := exists_segments cs
      rw [hcs, List.length_cons] at ih
      rw [segments_cons hcs, List.count_cons]
      by_cases hc : c = '.'
      · simp [hc, ih]
      · simp [hc, ih]

theorem trimPadding_append {cs : List Char} (h : ∀ c ∈ cs, c ≠ '=') (n : Nat) :
    trimPadding (cs ++ List.replicate n '=') = cs := by
  have hpadding : ∀ c ∈ List.replicate n '=', (c == '=') = true := fun c hc =>
    beq_iff_eq.mpr (List.eq_of_mem_replicate hc)
  have hcs : cs.reverse.dropWhile (· == '=') = cs.reverse := by
    cases hrev : cs.reverse with
    | nil => rfl
    | cons c r =>
        have hc : c ∈ cs := List.mem_reverse.mp (hrev ▸ List.mem_cons_self)
        exact List.dropWhile_cons_of_neg (by simpa using h c hc)
  rw [trimPadding, List.reverse_append, List.reverse_replicate,
    List.dropWhile_append_of_pos hpadding, hcs, List.reverse_reverse]

/-! Tokens. -/

/-- A token of a header, the octets of its claims and a signature, with any padding. -/
def signed (header : String) (claims : Bytes) (padding : Nat) (signature : String) : String :=
  header ++ "." ++ Base64Url.text claims ++ String.ofList (List.replicate padding '=') ++ "." ++
    signature

theorem segments_signed {header : String} (hheader : ∀ c ∈ header.toList, c ≠ '.') (claims : Bytes)
    (padding : Nat) (signature : String) :
    segments (signed header claims padding signature).toList =
      header.toList :: ((Base64Url.text claims).toList ++ List.replicate padding '=') ::
        segments signature.toList := by
  have hpayload : ∀ c ∈ (Base64Url.text claims).toList ++ List.replicate padding '=', c ≠ '.' := by
    intro c hc
    rcases List.mem_append.mp hc with hc | hc
    · exact (Base64Url.plain_of_mem_text c hc).1
    · rw [List.eq_of_mem_replicate hc]
      decide
  have htoken : (signed header claims padding signature).toList = header.toList ++ '.' ::
      (((Base64Url.text claims).toList ++ List.replicate padding '=') ++ '.' :: signature.toList) := by
    simp [signed]
  rw [htoken, segments_append hheader, segments_append hpayload]

/-- The claims of a token are those that were encoded. -/
theorem ofToken_signed {header : String} (hheader : ∀ c ∈ header.toList, c ≠ '.') (claims : Bytes)
    (padding : Nat) (signature : String) {v : Json} {exp : UInt64}
    (hclaims : Json.ofBytes claims = .ok v) (hexp : v.get? "exp" = some (.number (.natural exp))) :
    ofToken (signed header claims padding signature) = .ok exp := by
  obtain ⟨part, rest, hsignature⟩ := exists_segments signature.toList
  have hpayload : Base64Url.decode (Utf8.encode (String.ofList
      (trimPadding ((Base64Url.text claims).toList ++ List.replicate padding '=')))) = .ok claims := by
    rw [trimPadding_append fun c hc => (Base64Url.plain_of_mem_text c hc).2, String.ofList_toList,
      Base64Url.encode_text, Base64Url.decode_encode]
  rw [ofToken, segments_signed hheader, hsignature]
  dsimp only
  rw [hpayload]
  dsimp only
  rw [hclaims]
  dsimp only
  rw [hexp]
  rfl

theorem ofToken_of_count_lt {token : String} (h : token.toList.count '.' < 2) :
    ofToken token = .error .notSegmented := by
  have hlength := length_segments token.toList
  unfold ofToken
  split
  next hsegments =>
    rw [hsegments] at hlength
    simp only [List.length_cons] at hlength
    omega
  next => rfl

/-! Blobs. -/

def HasToken (b : Blob) (token : String) : Prop :=
  ∃ v set, Json.parse b.text = .ok v ∧ TokenSet.of? v = some set ∧
    set.get? "access_token" = some (.text token) ∧
    (set.get? "expires_at" = none ∨ set.get? "expires_at" = some .null)

theorem HasToken.decoder_eq {b : Blob} {token : String} (h : HasToken b token) :
    decoder b = ofToken token := by
  obtain ⟨v, set, hparse, hset, htoken, hstated⟩ := h
  have hnone : (set.get? "expires_at").filter (fun v => !v.isNull) = none := by
    rcases hstated with hstated | hstated <;> rw [hstated] <;> rfl
  rw [decoder, hparse]
  dsimp only
  rw [hset]
  dsimp only
  rw [ofTokenSet, hnone, htoken]
  rfl

/-- The `exp` of claims that are written in a token is read back from it, however long the claims are
and whatever signature and padding there is, and it is the expiry of a blob that has the token and
states none. A text with fewer than two points is no token, on its own or in a blob. -/
theorem claim_read_back (header : String) (hheader : ∀ c ∈ header.toList, c ≠ '.')
    (signature : String) (padding : Nat) (claims : Bytes) (members : Table String Json)
    (hclaims : Json.ofBytes claims = .ok (.object members)) (exp : UInt64)
    (hexp : members.get? "exp" = some (.number (.natural exp))) :
    ofToken (signed header claims padding signature) = .ok exp ∧
      (∀ b, HasToken b (signed header claims padding signature) → decoder b = .ok exp) ∧
      ∀ token : String, token.toList.count '.' < 2 → ofToken token = .error .notSegmented ∧
        ∀ b, HasToken b token → decoder b = .error .notSegmented := by
  have hread := ofToken_signed hheader claims padding signature hclaims hexp
  refine ⟨hread, fun b hb => hb.decoder_eq.trans hread, fun token htoken => ?_⟩
  have herror := ofToken_of_count_lt htoken
  exact ⟨herror, fun b hb => hb.decoder_eq.trans herror⟩

/-- Ten octets of claims, padded, with a point in the signature. -/
theorem claim_read_back_padded :
    let claims : Json := .object [("exp", .number (.natural 50))]
    let token := "e30.eyJleHAiOjUwfQ==.s.g"
    let set : Json := .object [("access_token", .text token), ("expires_at", .null)]
    let b : Blob := ⟨(Json.object [(TokenSet.readKey, set)]).render⟩
    token = signed "e30" (Utf8.encode claims.render) 2 "s.g" ∧ ofToken token = .ok 50 ∧
      HasToken b token ∧ decoder b = .ok 50 := by
  intro claims token set b
  have hclaims : Json.parse claims.render = .ok claims :=
    Json.parse_render (Json.Readable.member (@Json.Readable.number _ (.natural 50) trivial) "exp")
  have hset (depth : Nat) : Json.Readable (depth + 1) set := by
    refine .object ?_ fun p hp => ?_
    · exact .cons (fun p hp => by rw [List.mem_singleton.mp hp]; decide) (List.pairwise_singleton _ _)
    · rcases List.mem_cons.mp hp with rfl | hp
      · exact .text token
      · rw [List.mem_singleton.mp hp]
        exact .null
  have hb : HasToken b token :=
    ⟨_, set, Json.parse_render ((hset _).member TokenSet.readKey), rfl, rfl, .inr rfl⟩
  have htoken : token = signed "e30" (Utf8.encode claims.render) 2 "s.g" := by decide +kernel
  obtain ⟨hread, hblob, -⟩ := claim_read_back "e30" (by simp) "s.g" 2
    (Utf8.encode claims.render) [("exp", .number (.natural 50))] hclaims 50 rfl
  rw [← htoken] at hread hblob
  exact ⟨htoken, hread, hb, hblob b hb⟩

end Upkeep.Expiry
