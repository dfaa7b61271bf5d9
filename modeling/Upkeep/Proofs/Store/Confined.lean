import Mathlib.Data.List.Sort
import Upkeep.Proofs.Interleaving
import Upkeep.Proofs.Store.Scan
import Upkeep.Proofs.Store.Shared
import Upkeep.Store.Interference

/-!
Errands that keep to the keys with one start. Stores that agree on those keys are all the same to
such an errand, and it leaves the other keys as they are. Errands that keep to keys apart do not
notice each other.
-/

namespace Upkeep

namespace Store

theorem startsWith_trans {a b c : String} (hab : startsWith a b = true)
    (hbc : startsWith b c = true) : startsWith a c = true :=
  startsWith_iff.mpr ((startsWith_iff.mp hab).trans (startsWith_iff.mp hbc))

/-- Of two starts of one key, one is a start of the other. -/
theorem startsWith_or_startsWith {a b key : String} (ha : startsWith a key = true)
    (hb : startsWith b key = true) : startsWith a b = true ∨ startsWith b a = true :=
  (List.prefix_or_prefix_of_prefix (startsWith_iff.mp ha) (startsWith_iff.mp hb)).imp
    startsWith_iff.mpr startsWith_iff.mpr

theorem Call.effect_of_ne {c : Call} {key : String} (h : key ≠ c.subject) (held : Option Bytes) :
    c.effect key held = held := by
  cases c with
  | scan | get => rfl
  | put | delete => exact if_neg h
  | compareAndPut => exact if_neg fun hkey => h hkey.1

namespace Memory

def AgreeOn (start : String) (m m' : Memory) : Prop :=
  ∀ key, startsWith start key = true → m.get? key = m'.get? key

section Answer

variable {start : String} {m m' : Memory} (hm : Table.Ascending m) (hm' : Table.Ascending m')
  (h : AgreeOn start m m')

include hm hm' h

private theorem AgreeOn.filter_keys {p : String → Bool}
    (hp : ∀ key, p key = true → startsWith start key = true) :
    m.keys.filter p = m'.keys.filter p := by
  refine ((Table.ascending_iff_keys.mp hm).filter _).eq_of_mem_iff
    ((Table.ascending_iff_keys.mp hm').filter _) fun key => ?_
  have hkey : p key = true → (key ∈ m.keys ↔ key ∈ m'.keys) := fun hpkey => by
    have hget := h key (hp key hpkey)
    rw [← not_iff_not, ← Table.get?_eq_none_iff, ← Table.get?_eq_none_iff, hget]
  simp only [List.mem_filter]
  exact and_congr_left hkey

theorem AgreeOn.reply {c : Call} (hc : startsWith start c.subject = true) :
    (answer c m).1 = (answer c m').1 := by
  cases c with
  | scan start' after limit =>
      have hkeys := h.filter_keys hm hm' (p := fun k => startsWith start' k && isAfter after k)
        fun key hkey => startsWith_trans hc (Bool.and_eq_true_iff.mp hkey).1
      simp only [answer]
      rw [scan_eq hm, scan_eq hm', hkeys]
  | get key => simp only [answer, h key hc]
  | put key value => rfl
  | compareAndPut key expected value =>
      simp only [answer, compareAndPut, h key hc]
      split <;> rfl
  | delete key => simp only [answer, h key hc]

theorem AgreeOn.answer (c : Call) : AgreeOn start (answer c m).2 (answer c m').2 := by
  intro key hkey
  rw [get?_answer hm, get?_answer hm', h key hkey]

end Answer

end Memory

end Store

open Store

namespace Work

variable {α β : Type}

def FindsAsAsked : (r : Request) → r.Reply → Prop
  | .store (.scan start _ _), .ok (keys : List String) => ∀ key ∈ keys, startsWith start key = true
  | _, _ => True

def Within (start : String) : Request → Prop
  | .store c => startsWith start c.subject = true
  | _ => True

def KeepsTo (start : String) (p : Errand α) : Prop :=
  p.KeepsOk FindsAsAsked (Within start) fun _ => True

/-- Whether an errand has the same result after another one as without it, in whatever store. -/
def Ignores (q : Errand β) (p : Errand α) : Prop :=
  ∀ elsewhere m, Table.Ascending m →
    (q.run (Memory.alone elsewhere) (p.run (Memory.alone elsewhere) m).2).1 =
      (q.run (Memory.alone elsewhere) m).1

private theorem findsAsAsked_of_shared {m m' : Memory} (hm : Table.Ascending m) {r : Request}
    {x : r.Reply} (h : Shared r m x m') : FindsAsAsked r x := by
  cases h with
  | answered c =>
      cases c with
      | scan start after limit =>
          intro key hkey
          change key ∈ Memory.scan m start after limit at hkey
          rw [Memory.scan_eq hm] at hkey
          have hfound := (List.mem_filter.mp (List.mem_of_mem_take hkey)).2
          exact (Bool.and_eq_true_iff.mp hfound).1
      | _ => trivial
  | failed c => cases c <;> trivial
  | elsewhere _ _ _ hr =>
      cases r with
      | store c => exact absurd rfl (hr c)
      | _ => trivial

private theorem get?_of_shared {start : String} {m m' : Memory} (hm : Table.Ascending m)
    {r : Request} (hr : Within start r) {x : r.Reply} (h : Shared r m x m') {key : String}
    (hkey : startsWith start key = false) : m'.get? key = m.get? key := by
  cases h with
  | answered c =>
      have hne : key ≠ c.subject := fun he => by
        rw [he] at hkey
        exact Bool.false_ne_true (hkey.symm.trans hr)
      exact (Memory.get?_answer hm c key).trans (Call.effect_of_ne hne _)
  | failed | elsewhere => rfl

section Run

variable (elsewhere : (r : Request) → r.Reply) {start : String}

theorem ascending_run (p : Work α) {m : Memory} (hm : Table.Ascending m) :
    Table.Ascending (p.run (Memory.alone elsewhere) m).2 := by
  have hp : p.Keeps (fun _ _ => True) (fun _ => True) fun _ => True := p.keeps_true
  exact hp.run Table.Ascending
    (fun r m _ hm => ⟨trivial, (Memory.alone_shared elsewhere r m).ascending hm⟩) hm

/-- An errand that keeps to the keys with a start leaves the others as they are. -/
theorem KeepsTo.get?_run {p : Errand α} (hp : KeepsTo start p) {m : Memory}
    (hm : Table.Ascending m) {key : String} (hkey : startsWith start key = false) :
    (p.run (Memory.alone elsewhere) m).2.get? key = m.get? key := by
  refine (Program.Keeps.run hp (fun m' => Table.Ascending m' ∧ m'.get? key = m.get? key) ?_
    ⟨hm, rfl⟩).2
  rintro r m' hr ⟨hm', hget⟩
  have hturn := Memory.alone_shared elsewhere r m'
  exact ⟨findsAsAsked_of_shared hm' hturn, hturn.ascending hm',
    (get?_of_shared hm' hr hturn hkey).trans hget⟩

/-- A run has the same result in stores that agree on the keys that it keeps to. -/
private theorem run_agree {p : Work α} {post : α → Prop}
    (hp : p.Keeps FindsAsAsked (Within start) post) {m m' : Memory} (hm : Table.Ascending m)
    (hm' : Table.Ascending m') (h : Memory.AgreeOn start m m') :
    (p.run (Memory.alone elsewhere) m).1 = (p.run (Memory.alone elsewhere) m').1 := by
  induction p generalizing m m' with
  | done a => rfl
  | abandon => rfl
  | ask r next ih =>
      have hreply : (Memory.alone elsewhere r m).1 = (Memory.alone elsewhere r m').1 := by
        cases r with
        | store c => exact h.reply hm hm' hp.1
        | _ => rfl
      have hagree : Memory.AgreeOn start (Memory.alone elsewhere r m).2
          (Memory.alone elsewhere r m').2 := by
        cases r with
        | store c => exact h.answer hm hm' c
        | _ => exact h
      -- after the same reply both runs go on alike, in stores that still agree
      rw [Program.run_ask, Program.run_ask, hreply]
      exact ih _ (hp.2 _ (findsAsAsked_of_shared hm' (Memory.alone_shared elsewhere r m')))
        ((Memory.alone_shared elsewhere r m).ascending hm)
        ((Memory.alone_shared elsewhere r m').ascending hm') hagree

end Run

/-- Errands that keep to keys apart do not notice each other. -/
theorem KeepsTo.ignores {start start' : String} {p : Errand α} {q : Errand β}
    (hp : KeepsTo start p) (hq : KeepsTo start' q)
    (hapart : ∀ key, startsWith start' key = true → startsWith start key = false) :
    Ignores q p :=
  fun elsewhere _ hm => run_agree elsewhere hq (ascending_run elsewhere p hm) hm fun key hkey =>
    hp.get?_run elsewhere hm (hapart key hkey)

end Work

end Upkeep
