import Upkeep.Proofs.Browsing
import Upkeep.Proofs.Store.Shown

/-!
Activities whose store is a directory. As long as the directory shows a store, those that browse it
complete, and the keys are the same afterwards.
-/

namespace Upkeep

open Store Files FileNames FileStore Timeline

/-- Surroundings whose store is a directory in which nobody else works, and which may be listed in
another order each time. -/
structure Outside.OnDisk {σ : Type} (o : Outside σ) (f : FileStore) (opened : σ → Opened) : Prop where
  answers : ∀ c s, ∃ order : List Bytes → List Bytes, (∀ names, (order names).Perm names) ∧
    f.answer? order c (opened s) = ((o.store c s).1, opened (o.store c s).2)

namespace Outside.OnDisk

variable {σ α : Type} {o : Outside σ} {f : FileStore} {opened : σ → Opened} (ho : o.OnDisk f opened)

include ho

theorem replies (c : Call) (s : σ) : ∃ order : List Bytes → List Bytes,
    (∀ names, (order names).Perm names) ∧ ∀ x s', f.answer? order c (opened s) = (x, s') →
      (o.store c s).1 = x ∧ opened (o.store c s).2 = s' := by
  obtain ⟨order, horder, hanswer⟩ := ho.answers c s
  exact ⟨order, horder, fun x s' heq => Prod.mk.inj (hanswer.symm.trans heq)⟩

/-- Looking a key up is reading its file. -/
theorem run_look {t : Timeline σ} (key : String) (g : Except Failure (Option Bytes) → Work α) :
    ∃ s, opened s = opened t.outside ∧ t.run o ((Work.get key).bind g) = (t.withOutside s).run o
      (g ((found (Files.read (opened t.outside).disk (ofKey key))).mapError Failure.store)) := by
  obtain ⟨order, -, hreplies⟩ := ho.replies (.get key) t.outside
  obtain ⟨hreply, hstate⟩ := hreplies _ _ (FileStore.run_read order key (opened t.outside))
  refine ⟨_, hstate, ?_⟩
  cases hfound : found (Files.read (opened t.outside).disk (ofKey key)) with
  | error e => exact run_call_error (c := .get key) g (hfound ▸ hreply)
  | ok value => exact run_call_ok (c := .get key) g (hfound ▸ hreply)

/-- What is asked of the directory by an activity that browses it is answered as that relies on. -/
theorem serves {m : Memory} {c : Call} (hc : Work.Request.Browses (.store c)) {s : σ}
    (h : Shows (opened s) m) : ∃ x s', o.store c s = (some x, s') ∧
      Work.Serves m.keys (fun key => IsName (ofKey key)) (.store c) x ∧
      ∃ m', Shows (opened s') m' ∧ m'.keys = m.keys := by
  obtain ⟨order, horder, hreplies⟩ := ho.replies c s
  cases c with
  | scan start after limit =>
      obtain ⟨hreply, hstate⟩ := hreplies _ _ (h.run_scan order horder start after hc)
      refine ⟨_, _, Prod.ext hreply rfl, ⟨_, rfl, fun key hkey => ?_, fun seen todo hkeys hafter => ?_⟩,
        m, hstate ▸ h, rfl⟩
      · rw [Memory.scan_eq h.ascending] at hkey
        exact List.mem_of_mem_filter (List.mem_of_mem_take hkey)
      · rw [hafter]
        exact Memory.scan_rest h.ascending hkeys limit
  | get key =>
      obtain ⟨hreply, hstate⟩ := hreplies _ _ (FileStore.run_read order key (opened s))
      refine ⟨_, _, Prod.ext hreply rfl, fun hkey hname => ?_, m, hstate ▸ h, rfl⟩
      obtain ⟨bs, hbs⟩ := Option.isSome_iff_exists.mp (Table.mem_keys_iff.mp hkey)
      exact ⟨bs, hbs ▸ h.found_read hname⟩
  | compareAndPut key expected value =>
      obtain ⟨x, s', m', hrun, h', hkeys⟩ := h.run_compareAndPut_or order f key expected value
      obtain ⟨hreply, rfl⟩ := hreplies _ _ ((run_locked order f key _ _).trans hrun)
      exact ⟨x, _, Prod.ext hreply rfl, trivial, m', h', hkeys⟩
  | put key value => exact hc.elim
  | delete key => exact hc.elim

/-- An activity that browses a directory completes. -/
theorem run_browsing {t : Timeline σ} {m : Memory} (h : Shows (opened t.outside) m) {p : Work α}
    {post : α → Prop}
    (hp : p.Completes (Work.Serves m.keys fun key => IsName (ofKey key)) Work.Request.Browses post) :
    ∃ a s, t.run o p = (some a, t.withOutside s) ∧ post a ∧
      ∃ m', Shows (opened s) m' ∧ m'.keys = m.keys := by
  refine Timeline.run_completes (fun s => ∃ m', Shows (opened s) m' ∧ m'.keys = m.keys)
    (fun r hr => ?_) (fun c s hc hs => ?_) hp ⟨m, h, rfl⟩
  · cases r with
    | store c => exact ⟨c, rfl⟩
    | _ => exact hr.elim
  · obtain ⟨m', h', hkeys⟩ := hs
    obtain ⟨x, s', hstore, hx, hs'⟩ := ho.serves hc h'
    exact ⟨x, s', hstore, hkeys ▸ hx, hkeys ▸ hs'⟩

end Outside.OnDisk

end Upkeep
