import Upkeep.Proofs.Json.RoundTrip
import Upkeep.Token.Merge

/-!
The writer of token sets against their reader. They choose the key of the token set by rules of
their own, which agree on blobs that have one of the two keys only. There the granted token is what
is read next, and no other member changes, but for a binary64 number that its own text does not
read as. On a blob with both keys the writer fails, or writes where nobody reads.
-/

namespace Upkeep

namespace Json

theorem get?_reread (v : Json) (key : String) : v.reread.get? key = (v.get? key).map reread := by
  cases v with
  | object members =>
      rw [reread, rereadMembers_eq]
      exact Table.get?_mapValues reread members key
  | _ => rfl

theorem reread_eq_text {v : Json} {s : String} : v.reread = .text s ↔ v = .text s := by
  cases v <;> simp [reread]

theorem Readable.get? {depth : Nat} {v : Json} (h : Readable (depth + 1) v) {key : String} {x : Json}
    (hx : v.get? key = some x) : Readable depth x := by
  cases h with
  | object _ hall => exact hall _ (Table.mem_of_get? hx)
  | _ => cases hx

theorem Readable.insert {depth : Nat} {members : List (String × Json)}
    (h : Readable (depth + 1) (.object members)) (key : String) {x : Json} (hx : Readable depth x) :
    Readable (depth + 1) (.object (Table.insert members key x)) := by
  cases h with
  | object hasc hall =>
      refine .object (Table.ascending_insert key x hasc) fun p hp => ?_
      rcases Table.mem_of_mem_insert hp with rfl | hp
      · exact hx
      · exact hall p hp

end Json

namespace TokenSet

def foundKey (v : Json) : String := if (v.get? readKey).isSome then readKey else writeKey

theorem of?_eq (v : Json) : of? v = (v.get? (foundKey v)).filter Json.isObject := by
  unfold of? foundKey
  cases hr : v.get? readKey with
  | none => rfl
  | some set => simp [hr]

def HasBoth (v : Json) : Prop := (v.get? readKey).isSome ∧ (v.get? writeKey).isSome

/-- With one key only the writer and the reader choose the same. -/
theorem writtenKey_eq_foundKey {v set : Json} (hset : of? v = some set) (h : ¬ HasBoth v) :
    writtenKey v = foundKey v := by
  unfold HasBoth at h
  unfold writtenKey foundKey
  cases hr : v.get? readKey with
  | none =>
      cases hw : v.get? writeKey with
      | none => simp [of?, hr, hw] at hset
      | some x => rfl
  | some x =>
      cases hw : v.get? writeKey with
      | none => rfl
      | some y => simp [hr, hw] at h

/-! The members of a token set once a token is granted. -/

section Granted

variable (t : Grant.Token) (expiry : Json) (set : Table String Json)

def IsGranted (key : String) : Prop :=
  key = "access_token" ∨ key = "expires_at" ∨ (key = "refresh_token" ∧ t.refreshToken.isSome) ∨
    (key = "token_type" ∧ t.tokenType.isSome)

private theorem get?_setText (key key' : String) (value : Option String) :
    (setText set key value).get? key' =
      if key' = key then (value.map Json.text).or (set.get? key) else set.get? key' := by
  cases value with
  | none =>
      rw [setText]
      split
      next h => rw [h]; rfl
      next => rfl
  | some s => rw [setText, Table.get?_insert]; rfl

theorem get?_granted (key : String) :
    (granted t expiry set).get? key =
      if key = "expires_at" then some expiry
      else if key = "token_type" then (t.tokenType.map Json.text).or (set.get? "token_type")
      else if key = "refresh_token" then
        (t.refreshToken.map Json.text).or (set.get? "refresh_token")
      else if key = "access_token" then some (.text t.accessToken)
      else set.get? key := by
  unfold granted
  dsimp only
  rw [Table.get?_insert]
  simp only [get?_setText]
  by_cases hexpires : key = "expires_at"
  · rw [if_pos hexpires, if_pos hexpires]
  · rw [if_neg hexpires, if_neg hexpires]
    by_cases hkind : key = "token_type"
    · subst hkind
      rfl
    · rw [if_neg hkind, if_neg hkind]
      by_cases hrefresh : key = "refresh_token"
      · subst hrefresh
        rfl
      · rw [if_neg hrefresh, if_neg hrefresh]
        rfl

/-- A key that the granted token says nothing about keeps its value. -/
theorem get?_granted_of_not {key : String} (h : ¬ IsGranted t key) :
    (granted t expiry set).get? key = set.get? key := by
  simp only [IsGranted, not_or, not_and, Bool.not_eq_true, Option.isSome_eq_false_iff,
    Option.isNone_iff_eq_none] at h
  obtain ⟨haccess, hexpires, hrefresh, hkind⟩ := h
  rw [get?_granted, if_neg hexpires, if_neg haccess]
  split
  next hk => rw [hkind hk, hk]; rfl
  next =>
    split
    next hk => rw [hrefresh hk, hk]; rfl
    next => rfl

end Granted

private theorem readable_setText {depth : Nat} {set : Table String Json}
    (h : Json.Readable (depth + 1) (.object set)) (key : String) (value : Option String) :
    Json.Readable (depth + 1) (.object (setText set key value)) := by
  cases value with
  | none => exact h
  | some s => exact h.insert key (.text s)

private theorem readable_granted {depth : Nat} {set : Table String Json}
    (h : Json.Readable (depth + 1) (.object set)) (t : Grant.Token) {expiry : Json}
    (he : Json.Readable depth expiry) :
    Json.Readable (depth + 1) (.object (granted t expiry set)) :=
  (readable_setText (readable_setText (readable_setText h _ _) _ _) _ _).insert _ he

theorem readable_expiryOf (depth : Nat) (now : UInt64) (t : Grant.Token) :
    Json.Readable depth (expiryOf now t) := by
  unfold expiryOf
  split
  · exact .null
  · split
    · exact .text _
    · exact .null

theorem reread_expiryOf (now : UInt64) (t : Grant.Token) :
    (expiryOf now t).reread = expiryOf now t := by
  unfold expiryOf
  split
  · rfl
  · split <;> rfl

/-! Writing. -/

/-- The written blob reads back: under the written key as the granted token set, under every other
key as what was there. -/
theorem merge_readBack {v : Json} (hv : Json.Readable Json.depthLimit v)
    (set : Table String Json) (hset : v.get? (writtenKey v) = some (.object set)) (now : UInt64)
    (t : Grant.Token) :
    ∃ b v', merge v t (expiryOf now t) = some b ∧ Json.parse b.text = .ok v' ∧
      ∀ key, v'.get? key =
        if key = writtenKey v then some (Json.object (granted t (expiryOf now t) set)).reread
        else (v.get? key).map Json.reread := by
  cases v with
  | object members =>
      have hmembers : Table.get? members (writtenKey (.object members)) = some (.object set) := hset
      have hnew : Json.Readable Json.depthLimit (.object (Table.insert members
          (writtenKey (.object members)) (.object (granted t (expiryOf now t) set)))) := by
        refine hv.insert _ (readable_granted ?_ t (readable_expiryOf _ now t))
        exact hv.get? hset
      refine ⟨_, _, by rw [merge]; simp only [hmembers]; rfl, Json.parse_render hnew, fun key => ?_⟩
      rw [Json.get?_reread]
      change Option.map Json.reread (Table.get? (Table.insert members _ _) key) = _
      rw [Table.get?_insert]
      split <;> rfl
  | _ => cases hset

/-- Without an object under the written key nothing is written. -/
theorem merge_eq_none {v : Json} (h : ∀ set, v.get? (writtenKey v) ≠ some (.object set))
    (t : Grant.Token) (expiry : Json) : merge v t expiry = none := by
  unfold merge
  cases v with
  | object members =>
      dsimp only
      split
      next set hset => exact absurd hset (h set)
      next => rfl
  | _ => rfl

/-! Writing against reading. -/

/-- The writer and the reader agree on a blob's value `v` with the token set `set`, for a token
granted at `now`: the blob is written, what is read next is the token set with what the token says,
and everything else keeps its value. -/
def Agree (v set : Json) (t : Grant.Token) (now : UInt64) : Prop :=
  ∃ b v' set', merge v t (expiryOf now t) = some b ∧ Json.parse b.text = .ok v' ∧
    of? v' = some set' ∧
    set'.get? "access_token" = some (.text t.accessToken) ∧
    set'.get? "refresh_token" = (t.refreshToken.map Json.text).or (set.get? "refresh_token") ∧
    set'.get? "token_type" = (t.tokenType.map Json.text).or (set.get? "token_type") ∧
    set'.get? "expires_at" = some (expiryOf now t) ∧
    (∀ key, ¬ IsGranted t key → set'.get? key = set.get? key) ∧
    ∀ key, key ≠ foundKey v → v'.get? key = v.get? key

/-- What no granted token replaces is read from its own text as what it is. It fails only where a
binary64 number reads as a neighbour of itself. -/
def Survives (v set : Json) : Prop :=
  (∀ key x, v.get? key = some x → key ≠ foundKey v → x.reread = x) ∧
    ∀ key x, set.get? key = some x → key ≠ "access_token" → key ≠ "expires_at" → x.reread = x

private def bareToken (access : String) : Grant.Token := ⟨access, none, 0, none⟩

private theorem map_reread_or {old new : Option Json} (h : ∀ x, old = some x → x.reread = x)
    (hnew : ∀ x, new = some x → x.reread = x) :
    (new.or old).map Json.reread = new.or old := by
  cases new with
  | some x => exact congrArg some (hnew x rfl)
  | none =>
      cases old with
      | none => rfl
      | some x => exact congrArg some (h x rfl)

theorem of?_eq_some {v set : Json} (h : of? v = some set) :
    v.get? (foundKey v) = some set ∧ ∃ members, set = .object members := by
  rw [of?_eq, Option.filter_eq_some_iff] at h
  refine ⟨h.1, ?_⟩
  cases set with
  | object members => exact ⟨members, rfl⟩
  | _ => cases h.2

section Written

variable {v v' : Json} {set new : Table String Json} (hset : of? v = some (.object set))
  (hboth : ¬ HasBoth v)
  (hget : ∀ key, v'.get? key =
    if key = writtenKey v then some (Json.object new).reread else (v.get? key).map Json.reread)

include hset hboth hget

/-- Writing adds no member to a blob and removes none. -/
private theorem isSome_written (key : String) : (v'.get? key).isSome = (v.get? key).isSome := by
  rw [hget]
  split
  next h => rw [h, writtenKey_eq_foundKey hset hboth, (of?_eq_some hset).1]; rfl
  next => exact Option.isSome_map

theorem not_hasBoth_written : ¬ HasBoth v' := by
  rw [HasBoth, isSome_written hset hboth hget, isSome_written hset hboth hget]
  exact hboth

/-- With one key only the reader finds what was written. -/
theorem of?_written : of? v' = some (Json.object new).reread := by
  have hfound : foundKey v' = foundKey v := by
    rw [foundKey, isSome_written hset hboth hget]
    rfl
  rw [of?_eq, hfound, hget, if_pos (writtenKey_eq_foundKey hset hboth).symm]
  rfl

end Written

private theorem agree_of_survives {v set : Json} (hv : Json.Readable Json.depthLimit v)
    (hset : of? v = some set) (hboth : ¬ HasBoth v) (hs : Survives v set) (t : Grant.Token)
    (now : UInt64) : Agree v set t now := by
  obtain ⟨hfound, members, rfl⟩ := of?_eq_some hset
  have hkey := writtenKey_eq_foundKey hset hboth
  obtain ⟨b, v', hmerge, hparse, hget⟩ :=
    merge_readBack hv members (by rw [hkey]; exact hfound) now t
  have hgranted : ∀ key, (Json.object (granted t (expiryOf now t) members)).reread.get? key =
      ((granted t (expiryOf now t) members).get? key).map Json.reread := Json.get?_reread _
  have hold : ∀ key x, Table.get? members key = some x → key ≠ "access_token" →
      key ≠ "expires_at" → x.reread = x := hs.2
  refine ⟨b, v', _, hmerge, hparse, of?_written hset hboth hget, ?_, ?_, ?_, ?_, ?_, ?_⟩
  · rw [hgranted, get?_granted]
    rfl
  · rw [hgranted, get?_granted]
    refine map_reread_or (fun x hx => hold _ x hx (by decide) (by decide)) fun x hx => ?_
    obtain ⟨s, -, rfl⟩ := Option.map_eq_some_iff.mp hx
    rfl
  · rw [hgranted, get?_granted]
    refine map_reread_or (fun x hx => hold _ x hx (by decide) (by decide)) fun x hx => ?_
    obtain ⟨s, -, rfl⟩ := Option.map_eq_some_iff.mp hx
    rfl
  · rw [hgranted, get?_granted]
    exact congrArg some (reread_expiryOf now t)
  · intro key hk
    rw [hgranted, get?_granted_of_not t _ members hk]
    change Option.map _ (Table.get? members key) = Table.get? members key
    cases hx : Table.get? members key with
    | none => rfl
    | some x =>
        exact congrArg some (hold key x hx (fun e => hk (.inl e)) fun e => hk (.inr (.inl e)))
  · intro key hk
    rw [hget, if_neg (by rwa [hkey])]
    cases hx : v.get? key with
    | none => rfl
    | some x => exact congrArg some (hs.1 key x hx hk)

/-- Writing where the reader does not look leaves the reader with what it had. -/
private theorem not_agree_of_hasBoth {v set : Json} (hv : Json.Readable Json.depthLimit v)
    (hset : of? v = some set) (hboth : HasBoth v) :
    ∃ access, ∀ now, ¬ Agree v set (bareToken access) now := by
  obtain ⟨access, haccess⟩ : ∃ access, set.get? "access_token" ≠ some (.text access) := by
    by_cases h : set.get? "access_token" = some (.text "")
    · exact ⟨"a", by rw [h]; simp⟩
    · exact ⟨"", h⟩
  refine ⟨access, fun now hagree => ?_⟩
  obtain ⟨b, v', set', hmerge, hparse, hset', hfresh, -⟩ := hagree
  have hwritten : writtenKey v = writeKey := if_pos hboth.2
  have hfound : foundKey v = readKey := if_pos hboth.1
  by_cases hobject : ∃ members, v.get? (writtenKey v) = some (.object members)
  · obtain ⟨members, hmembers⟩ := hobject
    obtain ⟨b', v'', hmerge', hparse', hget⟩ := merge_readBack hv members hmembers now (bareToken access)
    cases hmerge.symm.trans hmerge'
    cases hparse.symm.trans hparse'
    have hread : v'.get? readKey = (v.get? readKey).map Json.reread := by
      rw [hget, if_neg (by rw [hwritten]; decide)]
    have hsome : (v'.get? readKey).isSome = true := by rw [hread, Option.isSome_map]; exact hboth.1
    have hfound' : foundKey v' = readKey := if_pos hsome
    have hold : v.get? readKey = some set := by rw [← hfound]; exact (of?_eq_some hset).1
    have hnew := (of?_eq_some hset').1
    rw [hfound', hread, hold] at hnew
    cases hnew
    rw [Json.get?_reread] at hfresh
    obtain ⟨x, hx, htext⟩ := Option.map_eq_some_iff.mp hfresh
    rw [Json.reread_eq_text.mp htext] at hx
    exact haccess hx
  · rw [merge_eq_none fun members h => hobject ⟨members, h⟩] at hmerge
    cases hmerge

private theorem survives_of_agree {v set : Json} (hv : Json.Readable Json.depthLimit v)
    (hset : of? v = some set) (hboth : ¬ HasBoth v) (access : String) (now : UInt64)
    (h : Agree v set (bareToken access) now) : Survives v set := by
  obtain ⟨b, v', set', hmerge, hparse, hset', -, -, -, -, hinner, houter⟩ := h
  obtain ⟨hfound, members, rfl⟩ := of?_eq_some hset
  have hkey := writtenKey_eq_foundKey hset hboth
  obtain ⟨b', v'', hmerge', hparse', hget⟩ :=
    merge_readBack hv members (by rw [hkey]; exact hfound) now (bareToken access)
  cases hmerge.symm.trans hmerge'
  cases hparse.symm.trans hparse'
  cases hset'.symm.trans (of?_written hset hboth hget)
  refine ⟨fun key x hx hk => ?_, fun key x hx haccess hexpires => ?_⟩
  · have hkept := houter key hk
    rw [hget, if_neg (by rwa [hkey]), hx] at hkept
    exact Option.some.inj hkept
  · have hnot : ¬ IsGranted (bareToken access) key := by
      rintro (h | h | h | h)
      · exact haccess h
      · exact hexpires h
      · exact nomatch h.2
      · exact nomatch h.2
    have hkept := hinner key hnot
    rw [Json.get?_reread] at hkept
    change Option.map _ ((granted _ _ members).get? key) = _ at hkept
    rw [get?_granted_of_not _ _ members hnot, show Table.get? members key = some x from hx,
      hx] at hkept
    exact Option.some.inj hkept

/-- On a blob from which a token set is read, the writer and the reader agree about every granted
token exactly when the blob has one key of a token set only, and its other members survive being
written. -/
theorem agree_iff {text : String} {v set : Json} (hv : Json.parse text = .ok v)
    (hset : of? v = some set) :
    (∀ t now, Agree v set t now) ↔ ¬ HasBoth v ∧ Survives v set := by
  have hreadable := Json.readable_parse hv
  constructor
  · intro h
    have hboth : ¬ HasBoth v := fun hboth => by
      obtain ⟨access, hno⟩ := not_agree_of_hasBoth hreadable hset hboth
      exact hno 0 (h (bareToken access) 0)
    exact ⟨hboth, survives_of_agree hreadable hset hboth "" 0 (h (bareToken "") 0)⟩
  · rintro ⟨hboth, hs⟩ t now
    exact agree_of_survives hreadable hset hboth hs t now

theorem readable_refreshToken (depth : Nat) (token : String) :
    Json.Readable (depth + 1) (.object [("refresh_token", .text token)]) :=
  Json.Readable.member (.text token) _

/-- A blob with one key and nothing in its token set but a refresh token. -/
theorem parse_single_key (token : String) :
    let v : Json := .object [(readKey, .object [("refresh_token", .text token)])]
    Json.parse v.render = .ok v :=
  Json.parse_render ((readable_refreshToken _ token).member readKey)

/-- A blob with one key is written and read alike. -/
theorem agree_single_key :
    let set : Json := .object [("refresh_token", .text "old")]
    let v : Json := .object [(readKey, set)]
    Json.parse v.render = .ok v ∧ of? v = some set ∧ ∀ t now, Agree v set t now := by
  intro set v
  have hv : Json.parse v.render = .ok v := parse_single_key "old"
  have hboth : ¬ HasBoth v := fun h => nomatch h.2
  refine ⟨hv, rfl, (agree_iff hv rfl).mpr ⟨hboth, fun key x hx hkey => ?_, fun key x hx _ _ => ?_⟩⟩
  · have hmem := Table.mem_of_get? (show Table.get? [(readKey, set)] key = some x from hx)
    exact absurd (congrArg Prod.fst (List.mem_singleton.mp hmem)) hkey
  · have hmem := Table.mem_of_get? (show Table.get? [("refresh_token", _)] key = some x from hx)
    rw [show x = .text "old" from congrArg Prod.snd (List.mem_singleton.mp hmem)]
    rfl

/-- With both keys the token set that is read may be fine while nothing can be written. -/
theorem not_agree_both_keys :
    let set : Json := .object [("refresh_token", .text "old")]
    let v : Json := .object [(readKey, set), (writeKey, .null)]
    Json.parse v.render = .ok v ∧ of? v = some set ∧ ∀ t now, ¬ Agree v set t now := by
  refine ⟨Json.parse_render (.object ?_ fun p hp => ?_), rfl, fun t now h => ?_⟩
  · exact .cons (fun p hp => by rw [List.mem_singleton.mp hp]; decide) (List.pairwise_singleton _ _)
  · rcases List.mem_cons.mp hp with rfl | hp
    · exact readable_refreshToken _ _
    · rw [List.mem_singleton.mp hp]
      exact .null
  · obtain ⟨b, v', set', hmerge, -⟩ := h
    cases hmerge

end TokenSet

end Upkeep
