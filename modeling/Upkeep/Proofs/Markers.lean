import Upkeep.Daemon
import Upkeep.Proofs.Session.Repeat
import Upkeep.Proofs.Store.Confined

/-!
Markers beside session rows. Both are keys of one store, each kind with a start of its own. Markers
and rows do not notice each other exactly when no marker is among the keys that start as those of
rows; the settings leave the choice of the namespace open, and do not see to it.
-/

namespace Upkeep

open Store Work

namespace Rows

theorem startsWith_key (d : Did) : startsWith start (key d) = true := startsWith_append _ _

theorem keepsTo_get (d : Did) : KeepsTo start (get d) := get_keepsOk (startsWith_key d)

theorem keepsTo_put (d : Did) (b : Blob) : KeepsTo start (put d b) :=
  put_keepsOk trivial (startsWith_key d) fun _ _ _ => startsWith_key d

theorem keepsTo_delete (d : Did) : KeepsTo start (delete d) :=
  (Work.keepsOk_call (c := .delete (key d)) (startsWith_key d)).mono fun _ _ _ _ => trivial

theorem keepsTo_setExpiry (d : Did) (b : Blob) (t : UInt64) : KeepsTo start (setExpiry d b t) :=
  setExpiry_keepsOk (startsWith_key d) fun _ _ _ _ _ => startsWith_key d

end Rows

theorem Sweep.keepsTo_pass {ε : Type} (decode : Decoder ε) (pageSize budget : Nat) :
    KeepsTo Rows.start (pass decode pageSize budget) :=
  pass_keepsOk (fun _ => startsWith_iff.mpr (List.prefix_refl _)) (fun _ _ hfound => hfound)
    (fun d b t _ => Rows.keepsTo_setExpiry d b t) budget

namespace Markers

variable (k : Markers)

theorem startsWith_key (d : Did) : startsWith k.start (k.key d) = true := startsWith_append _ _

section Asked

variable {rely : (r : Work.Request) → r.Reply → Prop} {safe : Work.Request → Prop}

/-- A registration reads the marker, and writes it if it was not there. -/
theorem register_keepsOk {d : Did} (hget : safe (.store (.get (k.key d))))
    (hput : ∀ value, safe (.store (.put (k.key d) value))) :
    (k.register d).KeepsOk rely safe fun _ => True := by
  refine (keepsOk_call hget).onSuccess fun value _ => ?_
  cases value with
  | some _ => exact keepsOk_ok trivial
  | none => exact (keepsOk_call (hput _)).onSuccess fun _ _ => keepsOk_ok trivial

private theorem next_keeps {p : Pager}
    (hscan : ∀ after, safe (.store (.scan p.start after p.pageSize))) :
    p.next.Keeps rely safe fun x => x.2.start = p.start ∧ x.2.pageSize = p.pageSize := by
  unfold Pager.next
  split
  next => exact ⟨rfl, rfl⟩
  next =>
    refine Program.Keeps.bind (keepsOk_call (c := .scan p.start p.cursor p.pageSize) (hscan _))
      fun page _ => ?_
    cases page <;> exact ⟨rfl, rfl⟩

private theorem walk_keepsOk {p : Pager}
    (hscan : ∀ after, safe (.store (.scan p.start after p.pageSize))) (budget : Nat) :
    (Pager.walk budget p).KeepsOk rely safe fun _ => True := by
  induction budget generalizing p with
  | zero => trivial
  | succ budget ih =>
      refine (next_keeps hscan).bind fun (page, p') ⟨hstart, hsize⟩ => ?_
      rcases page with e | _ | page
      · exact keepsOk_fail _
      · exact keepsOk_ok trivial
      · refine (ih (p := p') ?_).onSuccess fun _ _ => keepsOk_ok trivial
        dsimp only at hstart hsize
        rwa [hstart, hsize]

/-- A listing scans for the markers, a page at a time. -/
theorem list_keepsOk (hscan : ∀ after, safe (.store (.scan k.start after (max k.pageSize 1))))
    (budget : Nat) : (k.list budget).KeepsOk rely safe fun _ => True :=
  (walk_keepsOk (p := .at k.start k.pageSize) hscan budget).onSuccess fun _ _ => keepsOk_ok trivial

end Asked

theorem keepsTo_register (d : Did) : KeepsTo k.start (k.register d) :=
  k.register_keepsOk (k.startsWith_key d) fun _ => k.startsWith_key d

theorem keepsTo_contains (d : Did) : KeepsTo k.start (k.contains d) :=
  (keepsOk_call (c := .get (k.key d)) (k.startsWith_key d)).onSuccess fun _ _ => keepsOk_ok trivial

theorem keepsTo_remove (d : Did) : KeepsTo k.start (k.remove d) :=
  (keepsOk_call (c := .delete (k.key d)) (k.startsWith_key d)).mono fun _ _ _ _ => trivial

theorem keepsTo_list (budget : Nat) : KeepsTo k.start (k.list budget) :=
  k.list_keepsOk (fun _ => startsWith_iff.mpr (List.prefix_refl _)) budget

/-- Markers and session rows do not notice each other, whatever the store holds. -/
structure Apart : Prop where
  get_register : ∀ d e, (Rows.get e).Ignores (k.register d)
  get_remove : ∀ d e, (Rows.get e).Ignores (k.remove d)
  pass_register : ∀ {ε : Type} (decode : Decoder ε) pageSize budget d,
    (Sweep.pass decode pageSize budget).Ignores (k.register d)
  pass_remove : ∀ {ε : Type} (decode : Decoder ε) pageSize budget d,
    (Sweep.pass decode pageSize budget).Ignores (k.remove d)
  contains_put : ∀ d e b, (k.contains d).Ignores (Rows.put e b)
  contains_delete : ∀ d e, (k.contains d).Ignores (Rows.delete e)
  list_put : ∀ e b budget, (k.list budget).Ignores (Rows.put e b)
  list_delete : ∀ e budget, (k.list budget).Ignores (Rows.delete e)

variable {k}

/-- No key is both that of a marker and that of a row. A namespace ends with its only colon, as the
start of rows does, so that it is a start of theirs only if it is theirs. -/
private theorem disjoint (h : startsWith Rows.start k.start = false) (key : String) :
    ¬ (startsWith k.start key = true ∧ startsWith Rows.start key = true) := by
  rintro ⟨hmarker, hrow⟩
  rcases startsWith_or_startsWith hmarker hrow with hstart | hstart
  · obtain ⟨rest, hrest⟩ := startsWith_iff.mp hstart
    rw [start, String.toList_append] at hrest
    have hcolon : Rows.start.toList = "session".toList ++ [':'] := rfl
    rcases rest.eq_nil_or_concat with rfl | ⟨init, last, rfl⟩
    · rw [List.append_nil, ← String.toList_append] at hrest
      have hsame : k.start = Rows.start := String.toList_inj.mp hrest
      rw [hsame, startsWith_iff.mpr (List.prefix_refl _)] at h
      cases h
    · rw [List.concat_eq_append, ← List.append_assoc, hcolon] at hrest
      have hinit := (List.append_inj' hrest rfl).1
      have hmem : ':' ∈ "session".toList :=
        hinit ▸ List.mem_append_left _ (List.mem_append_right _ (List.mem_singleton_self ':'))
      exact absurd hmem (by decide)
  · exact Bool.false_ne_true (h.symm.trans hstart)

private theorem apart (h : startsWith Rows.start k.start = false) : k.Apart := by
  have hrow : ∀ key, startsWith Rows.start key = true → startsWith k.start key = false :=
    fun key hkey => Bool.eq_false_iff.mpr fun hmarker => disjoint h key ⟨hmarker, hkey⟩
  have hmarker : ∀ key, startsWith k.start key = true → startsWith Rows.start key = false :=
    fun key hkey => Bool.eq_false_iff.mpr fun hrow => disjoint h key ⟨hkey, hrow⟩
  exact {
    get_register := fun d e => (k.keepsTo_register d).ignores (Rows.keepsTo_get e) hrow
    get_remove := fun d e => (k.keepsTo_remove d).ignores (Rows.keepsTo_get e) hrow
    pass_register := fun decode pageSize budget d =>
      (k.keepsTo_register d).ignores (Sweep.keepsTo_pass decode pageSize budget) hrow
    pass_remove := fun decode pageSize budget d =>
      (k.keepsTo_remove d).ignores (Sweep.keepsTo_pass decode pageSize budget) hrow
    contains_put := fun d e b => (Rows.keepsTo_put e b).ignores (k.keepsTo_contains d) hmarker
    contains_delete := fun d e => (Rows.keepsTo_delete e).ignores (k.keepsTo_contains d) hmarker
    list_put := fun e b budget => (Rows.keepsTo_put e b).ignores (k.keepsTo_list budget) hmarker
    list_delete := fun e budget => (Rows.keepsTo_delete e).ignores (k.keepsTo_list budget) hmarker }

/-- A marker among the rows is counted as a row. -/
private theorem not_apart (h : startsWith Rows.start k.start = true) : ¬ k.Apart := by
  intro hapart
  let d : Did := ⟨"did:a:b", by decide⟩
  let decode : Decoder Unit := fun _ => .ok 0
  have hsame := hapart.pass_register decode 1 3 d Memory.nobody [] Table.ascending_nil
  have hregister : ((k.register d).run (Memory.alone Memory.nobody) []).2 =
      [(k.key d, Utf8.encode d.text)] := rfl
  have hrows := Rows.ofStore_singleton (startsWith_trans h (k.startsWith_key d)) (Utf8.encode d.text)
  obtain ⟨report, _, hrun, hscanned⟩ := Sweep.pass_counts decode Memory.nobody
    (m := [(k.key d, Utf8.encode d.text)]) (List.pairwise_singleton _ _) 1
    (by rw [hrows, List.length_singleton]; decide : _ < 3)
  obtain ⟨report₀, _, hrun₀, hscanned₀⟩ := Sweep.pass_counts decode Memory.nobody
    (m := []) Table.ascending_nil 1 (by decide : _ < 3)
  rw [hregister, hrun, hrun₀] at hsame
  rw [Except.ok.inj (Option.some.inj hsame), hscanned₀, hrows] at hscanned
  cases hscanned

end Markers

/-- Under any settings, markers and session rows do not notice each other exactly when the namespace
of markers is not that of rows, nor one within it. -/
theorem Settings.markers_apart_iff (s : Settings) :
    s.caretaker.markers.Apart ↔ startsWith Rows.start (s.markerNamespace ++ ":") = false := by
  have hstart : s.caretaker.markers.start = s.markerNamespace ++ ":" := rfl
  rw [← hstart]
  exact ⟨fun hapart => Bool.eq_false_iff.mpr fun h => Markers.not_apart h hapart, Markers.apart⟩

/-- The namespace of rows is accepted for markers. -/
theorem Settings.markers_not_apart :
    let s : Settings :=
      { host := "127.0.0.1", tcpPort := 9810, authToken := none, stateDir := none,
        tokenUrl := "https://a/token", clientId := "client", markerNamespace := "session",
        maxAttempts := 5, retryBackoffMs := 1000, staggerMs := 5000, refreshPeriodMs := 300000,
        expiryLookaheadSecs := 600, refreshMarginSecs := 300, expirySweepMs := 0, pageSize := 100,
        logLevel := "info", logFormat := "text" }
    s.fault? = none ∧ ¬ s.caretaker.markers.Apart :=
  ⟨by decide, Markers.not_apart (by decide)⟩

end Upkeep
