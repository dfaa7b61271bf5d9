import Mathlib.Data.List.Permutation
import Upkeep.Proofs.Store.Faults
import Upkeep.Proofs.Store.Scan
import Upkeep.Store.Pager

/-!
Pages of a store that changes. Between two calls for a page the store may become any other, and a call
may fail and be made again. All that is asked of the store is that each of its scans is right about
the keys that are there at the time.
-/

namespace Upkeep

namespace Store

/-- What a scan is to give while certain keys are present: those that start as asked and come after
the cursor, in ascending order, and the smallest of them if they are more than the limit. -/
structure Scans (present : String → Prop) (start : String) (after : Option String) (limit : Nat)
    (page : List String) : Prop where
  ascending : page.Pairwise (· < ·)
  length_le : page.length ≤ limit
  sound : ∀ k ∈ page, present k ∧ startsWith start k = true ∧ isAfter after k = true
  complete : ∀ k, present k → startsWith start k = true → isAfter after k = true → k ∉ page →
    page.length = limit ∧ ∀ k' ∈ page, k' < k

/-- In a state of a store, every scan that does not fail is right. -/
def ScansAt {σ : Type} (answer : Program.Answers work σ) (present : String → Prop) (s : σ) : Prop :=
  ∀ start after limit page,
    (answer (.store (.scan start after limit)) s).1 = (.ok page : Except Error (List String)) →
      Scans present start after limit page

theorem isAfter_trans {after : Option String} {a b : String} (ha : isAfter after a = true)
    (hab : a < b) : isAfter after b = true := by
  cases after with
  | none => rfl
  | some c => exact decide_eq_true (Std.lt_trans (of_decide_eq_true ha) hab)

theorem Memory.scans {m : Memory} (hm : Table.Ascending m) (start : String) (after : Option String)
    (limit : Nat) : Scans (· ∈ m.keys) start after limit (scan m start after limit) := by
  rw [scan_eq hm]
  have hasc := (Table.ascending_iff_keys.mp hm).filter fun k => startsWith start k && isAfter after k
  have hmem : ∀ k, k ∈ m.keys.filter (fun k => startsWith start k && isAfter after k) ↔
      k ∈ m.keys ∧ startsWith start k = true ∧ isAfter after k = true := by
    simp [List.mem_filter]
  generalize m.keys.filter (fun k => startsWith start k && isAfter after k) = found at hasc hmem
  refine ⟨hasc.take, List.length_take_le _ _, fun k hk => (hmem k).mp (List.mem_of_mem_take hk),
    fun k hk hstart hafter hnot => ?_⟩
  have hk : k ∈ found.drop limit := by
    have hfound := (hmem k).mpr ⟨hk, hstart, hafter⟩
    rw [← List.take_append_drop limit found] at hfound
    exact (List.mem_append.mp hfound).resolve_left hnot
  rw [← List.take_append_drop limit found] at hasc
  refine ⟨?_, fun k' hk' => (List.pairwise_append.mp hasc).2.2 k' hk' k hk⟩
  have hlength := List.length_pos_of_mem hk
  rw [List.length_drop] at hlength
  rw [List.length_take]
  omega

theorem Logged.scansAt {s : Logged} (hm : Table.Ascending s.memory) (faults : Faults)
    (elsewhere : (r : Work.Request) → r.Reply) :
    ScansAt (failing faults elsewhere) (· ∈ s.memory.keys) s := by
  intro start after limit page hpage
  cases hfault : faults s.log (.scan start after limit) with
  | some error =>
      simp only [failing, hfault] at hpage
      cases hpage
  | none =>
      simp only [failing, hfault, Memory.answer] at hpage
      cases hpage
      exact Memory.scans hm start after limit

end Store

namespace Pager

open Store

variable {σ : Type}

/-- A call for a page: the pager and the store at the time, the answer, and the pager after it. -/
structure Visit (σ : Type) where
  pager : Pager
  state : σ
  reply : Except Failure (Option (List String))
  after : Pager

def Visit.keys (v : Visit σ) : List String :=
  match v.reply with
  | .ok (some page) => page
  | _ => []

def visits (answer : Program.Answers work σ) : Pager → List σ → Option (List (Visit σ))
  | _, [] => some []
  | p, s :: ss =>
    match (p.next.run answer s).1 with
    | none => none
    | some (reply, p') => (visits answer p' ss).map (⟨p, s, reply, p'⟩ :: ·)

def scanned (answer : Program.Answers work σ) (p : Pager) (s : σ) : Except Error (List String) :=
  (answer (.store (.scan p.start p.cursor p.pageSize)) s).1

inductive Turn (answer : Program.Answers work σ) (s : σ) (p : Pager) :
    Except Failure (Option (List String)) → Pager → Prop
  | stopped (h : p.finished = true) : Turn answer s p (.ok none) p
  | failed (h : p.finished = false) {e : Error} (hscan : p.scanned answer s = .error e) :
      Turn answer s p (.error (.store e)) p
  | last (h : p.finished = false) (hscan : p.scanned answer s = .ok []) :
      Turn answer s p (.ok none) (p.advance [])
  | page (h : p.finished = false) {page : List String} (hscan : p.scanned answer s = .ok page)
      (hpage : page ≠ []) : Turn answer s p (.ok (some page)) (p.advance page)

theorem next_turn (answer : Program.Answers work σ) (p : Pager) (s : σ) :
    ∃ reply p', (p.next.run answer s).1 = some (reply, p') ∧ Turn answer s p reply p' := by
  have hrun : (Work.scan p.start p.cursor p.pageSize).run answer s =
      (some (Except.mapError Failure.store (p.scanned answer s)),
        (answer (.store (.scan p.start p.cursor p.pageSize)) s).2) := Work.run_call answer _ s
  unfold next
  cases hfinished : p.finished with
  | true => exact ⟨_, _, rfl, .stopped hfinished⟩
  | false =>
      rw [if_neg Bool.false_ne_true, Program.run_bind, hrun]
      cases hscan : p.scanned answer s with
      | error e => exact ⟨_, _, rfl, .failed hfinished hscan⟩
      | ok page =>
          cases page with
          | nil => exact ⟨_, _, rfl, .last hfinished hscan⟩
          | cons k ks => exact ⟨_, _, rfl, .page hfinished hscan (List.cons_ne_nil k ks)⟩

structure Walked (answer : Program.Answers work σ) (present : σ → String → Prop) (p : Pager)
    (vs : List (Visit σ)) : Prop where
  pages : ∀ v ∈ vs, ∀ page, v.reply = .ok (some page) → page ≠ [] ∧ page.length ≤ p.pageSize ∧
    ∀ k ∈ page, startsWith p.start k = true ∧ present v.state k
  ascending : (vs.flatMap Visit.keys).Pairwise (· < ·)
  beyond : ∀ k ∈ vs.flatMap Visit.keys, isAfter p.cursor k = true
  retry : ∀ v ∈ vs, ∀ e, v.reply = .error e → v.after = v.pager ∧
    ∃ cause, e = .store cause ∧ v.pager.scanned answer v.state = .error cause
  finished : p.finished = true → ∀ v ∈ vs, v.reply = .ok none
  ended : vs.Pairwise fun v w => v.reply = .ok none → w.reply = .ok none
  /-- Before the end is reached, a key that is there in all calls up to it has been given. -/
  complete : p.finished = false → ∀ before v, before ++ [v] <+: vs → v.reply = .ok none →
    ∀ k, startsWith p.start k = true → isAfter p.cursor k = true →
      (∀ w ∈ before ++ [v], present w.state k) → k ∈ vs.flatMap Visit.keys

namespace Walked

variable {answer : Program.Answers work σ} {present : σ → String → Prop} {p : Pager}
  {vs : List (Visit σ)} {s : σ}

theorem nil : Walked answer present p [] where
  pages v hv := nomatch hv
  ascending := .nil
  beyond k hk := nomatch hk
  retry v hv := nomatch hv
  finished _ v hv := nomatch hv
  ended := .nil
  complete _ before v h := by simp at h

theorem cons_stopped (h : Walked answer present p vs) (hp : p.finished = true) :
    Walked answer present p (⟨p, s, .ok none, p⟩ :: vs) where
  pages := List.forall_mem_cons.mpr ⟨nofun, h.pages⟩
  ascending := h.ascending
  beyond := h.beyond
  retry := List.forall_mem_cons.mpr ⟨nofun, h.retry⟩
  finished _ := List.forall_mem_cons.mpr ⟨rfl, h.finished hp⟩
  ended := List.pairwise_cons.mpr ⟨fun w hw _ => h.finished hp w hw, h.ended⟩
  complete hopen := by rw [hp] at hopen; cases hopen

theorem cons_failed (h : Walked answer present p vs) (hp : p.finished = false) {e : Error}
    (hscan : p.scanned answer s = .error e) :
    Walked answer present p (⟨p, s, .error (.store e), p⟩ :: vs) where
  pages := List.forall_mem_cons.mpr ⟨nofun, h.pages⟩
  ascending := h.ascending
  beyond := h.beyond
  retry := List.forall_mem_cons.mpr
    ⟨fun _ he => ⟨rfl, e, (Except.error.inj he).symm, hscan⟩, h.retry⟩
  finished hover := by rw [hp] at hover; cases hover
  ended := List.pairwise_cons.mpr ⟨fun _ _ hnone => (nomatch hnone), h.ended⟩
  complete hopen before v hvs hv k hk hafter hpresent := by
    cases before with
    | nil =>
        obtain ⟨rfl, -⟩ := List.cons_prefix_cons.mp hvs
        cases hv
    | cons u before =>
        exact h.complete hopen before v (List.cons_prefix_cons.mp hvs).2 hv k hk hafter
          fun w hw => hpresent w (List.mem_cons_of_mem _ hw)

theorem cons_last (h : Walked answer present (p.advance []) vs) (hsize : 0 < p.pageSize)
    (hscan : Scans (present s) p.start p.cursor p.pageSize []) :
    Walked answer present p (⟨p, s, .ok none, p.advance []⟩ :: vs) := by
  have hover : (p.advance []).finished = true := decide_eq_true hsize
  exact
    { pages := List.forall_mem_cons.mpr ⟨nofun, h.pages⟩
      ascending := h.ascending
      beyond := h.beyond
      retry := List.forall_mem_cons.mpr ⟨nofun, h.retry⟩
      finished := fun _ => List.forall_mem_cons.mpr ⟨rfl, h.finished hover⟩
      ended := List.pairwise_cons.mpr ⟨fun w hw _ => h.finished hover w hw, h.ended⟩
      complete := fun _ before v hvs _ k hk hafter hpresent => by
        -- a key that is there now would have been found
        have hfirst : present s k := by
          cases before with
          | nil =>
              rw [(List.cons_prefix_cons.mp hvs).1] at hpresent
              exact hpresent _ (List.mem_singleton_self _)
          | cons u before =>
              rw [(List.cons_prefix_cons.mp hvs).1] at hpresent
              exact hpresent _ List.mem_cons_self
        have hlimit := (hscan.complete k hfirst hk hafter List.not_mem_nil).1
        exact absurd hlimit.symm (Nat.ne_of_gt hsize) }

/-- What is left after a page comes after its last key. -/
theorem cons_page {page : List String} (h : Walked answer present (p.advance page) vs)
    (hp : p.finished = false) (hpage : page ≠ [])
    (hscan : Scans (present s) p.start p.cursor p.pageSize page) :
    Walked answer present p (⟨p, s, .ok (some page), p.advance page⟩ :: vs) := by
  obtain ⟨init, last, rfl⟩ := page.eq_nil_or_concat.resolve_left hpage
  rw [List.concat_eq_append] at *
  have hmem : last ∈ init ++ [last] := List.mem_append_right _ (List.mem_singleton_self _)
  have hcursor : (p.advance (init ++ [last])).cursor = some last := by
    rw [advance, List.getLast?_concat, Option.some_or]
  have hlast : ∀ k ∈ init ++ [last], k ≤ last := fun k hk => by
    rcases List.mem_append.mp hk with hk | hk
    · exact Std.le_of_lt ((List.pairwise_append.mp hscan.ascending).2.2 k hk last
        (List.mem_singleton_self _))
    · exact Std.le_of_eq (List.mem_singleton.mp hk)
  have hrest : ∀ k ∈ vs.flatMap Visit.keys, last < k := fun k hk => by
    have hk := h.beyond k hk
    rw [hcursor] at hk
    exact of_decide_eq_true hk
  exact
    { pages := List.forall_mem_cons.mpr ⟨fun page' hpage' => by
        cases hpage'
        exact ⟨hpage, hscan.length_le, fun k hk => ⟨(hscan.sound k hk).2.1, (hscan.sound k hk).1⟩⟩,
        h.pages⟩
      ascending := List.pairwise_append.mpr ⟨hscan.ascending, h.ascending, fun k hk k' hk' =>
        Std.lt_of_le_of_lt (hlast k hk) (hrest k' hk')⟩
      beyond := fun k hk => by
        rcases List.mem_append.mp hk with hk | hk
        · exact (hscan.sound k hk).2.2
        · exact isAfter_trans (hscan.sound last hmem).2.2 (hrest k hk)
      retry := List.forall_mem_cons.mpr ⟨nofun, h.retry⟩
      finished := fun hover => by rw [hp] at hover; cases hover
      ended := List.pairwise_cons.mpr ⟨fun _ _ hnone => (nomatch hnone), h.ended⟩
      complete := fun _ before v hvs hv k hk hafter hpresent => by
        cases before with
        | nil =>
            obtain ⟨rfl, -⟩ := List.cons_prefix_cons.mp hvs
            cases hv
        | cons u before =>
            obtain ⟨rfl, hprefix⟩ := List.cons_prefix_cons.mp hvs
            by_cases hgiven : k ∈ init ++ [last]
            · exact List.mem_append_left _ hgiven
            · -- a key that the page leaves out comes after it, and the page is full
              obtain ⟨hfull, hlt⟩ :=
                hscan.complete k (hpresent _ List.mem_cons_self) hk hafter hgiven
              have hopen : (p.advance (init ++ [last])).finished = false :=
                decide_eq_false (Nat.not_lt.mpr (Nat.le_of_eq hfull.symm))
              refine List.mem_append_right _ (h.complete hopen before v hprefix hv k hk ?_
                fun w hw => hpresent w (List.mem_cons_of_mem _ hw))
              rw [hcursor]
              exact decide_eq_true (hlt last hmem) }

end Walked

/-- Whatever states the store comes to between the calls, each call has an answer. -/
theorem walked (answer : Program.Answers work σ) (present : σ → String → Prop) {p : Pager}
    (hsize : 0 < p.pageSize) {ss : List σ} (hscans : ∀ s ∈ ss, ScansAt answer (present s) s) :
    ∃ vs, visits answer p ss = some vs ∧ vs.map Visit.state = ss ∧ Walked answer present p vs := by
  induction ss generalizing p with
  | nil => exact ⟨[], rfl, rfl, .nil⟩
  | cons s ss ih =>
      obtain ⟨reply, p', hnext, hturn⟩ := next_turn answer p s
      have hsize' : 0 < p'.pageSize := by cases hturn <;> exact hsize
      obtain ⟨vs, hvisits, hstates, h⟩ :=
        ih hsize' fun s' hs => hscans s' (List.mem_cons_of_mem _ hs)
      refine ⟨⟨p, s, reply, p'⟩ :: vs, ?_, ?_, ?_⟩
      · rw [visits, hnext]
        dsimp only
        rw [hvisits]
        rfl
      · rw [List.map_cons, hstates]
      · have hscan := hscans s List.mem_cons_self p.start p.cursor p.pageSize
        cases hturn with
        | stopped hp => exact h.cons_stopped hp
        | failed hp herror => exact h.cons_failed hp herror
        | last hp hfound => exact h.cons_last hsize (hscan [] hfound)
        | page hp hfound hpage => exact h.cons_page hp hpage (hscan _ hfound)

/-- Calls for the pages of all keys with a common start, while the store may be changed between them
and some of them fail: no page is empty or too long, keys ascend from page to page, and each was there
when its page was given. A call that fails leaves the pager to ask for the same page again. Once
there are no more pages there never are, and every key that was there all the time was given once. -/
theorem visits_exact (answer : Program.Answers work σ) (present : σ → String → Prop) (start : String)
    (pageSize : Nat) {ss : List σ} (hscans : ∀ s ∈ ss, ScansAt answer (present s) s) :
    ∃ vs, visits answer (.at start pageSize) ss = some vs ∧ vs.map Visit.state = ss ∧
      (∀ v ∈ vs, ∀ page, v.reply = .ok (some page) →
        page ≠ [] ∧ page.length ≤ max pageSize 1 ∧
          ∀ k ∈ page, startsWith start k = true ∧ present v.state k) ∧
      (vs.flatMap Visit.keys).Pairwise (· < ·) ∧
      (∀ v ∈ vs, ∀ e, v.reply = .error e → v.after = v.pager ∧
        ∃ cause, e = .store cause ∧ v.pager.scanned answer v.state = .error cause) ∧
      (vs.Pairwise fun v w => v.reply = .ok none → w.reply = .ok none) ∧
      ∀ before v, before ++ [v] <+: vs → v.reply = .ok none → ∀ k, startsWith start k = true →
        (∀ w ∈ before ++ [v], present w.state k) → (vs.flatMap Visit.keys).count k = 1 := by
  obtain ⟨vs, hvisits, hstates, h⟩ := walked answer present (p := .at start pageSize)
    (Nat.lt_of_lt_of_le Nat.one_pos (Nat.le_max_right pageSize 1)) hscans
  refine ⟨vs, hvisits, hstates, h.pages, h.ascending, h.retry, h.ended, ?_⟩
  intro before v hvs hv k hk hpresent
  refine List.count_eq_one_of_mem (h.ascending.imp Std.ne_of_lt) ?_
  exact h.complete rfl before v hvs hv k hk rfl hpresent

/-- Pages of one key: the second fetch fails and is made again after a key has gone and another one
has come, which is gone in turn before it would have been found. -/
theorem visits_exact_changing :
    let down : Error := .refused "down"
    let answer := Logged.failing (fun log _ => if log.isEmpty then none else some down) Memory.nobody
    let first : Memory := [("a1", []), ("a2", []), ("b", [])]
    let ss : List Logged := [⟨first, []⟩, ⟨first, [⟨.get "a1", .error down⟩]⟩,
      ⟨[("a2", []), ("a3", [])], []⟩, ⟨[("a2", []), ("b", [])], []⟩, ⟨first, []⟩]
    (∀ s ∈ ss, ScansAt answer (· ∈ s.memory.keys) s) ∧
      ∃ vs, visits answer (.at "a" 1) ss = some vs ∧
        vs.map Visit.reply =
          [.ok (some ["a1"]), .error (.store down), .ok (some ["a2"]), .ok none, .ok none] ∧
        (vs.flatMap Visit.keys).count "a2" = 1 := by
  intro down answer first ss
  have hscans : ∀ s ∈ ss, ScansAt answer (· ∈ s.memory.keys) s := by
    intro s hs
    refine Logged.scansAt (Table.ascending_iff_keys.mpr ?_) _ _
    revert s
    decide
  obtain ⟨vs, hvisits, hstates, -, -, -, -, hcount⟩ :=
    visits_exact answer (fun s => (· ∈ s.memory.keys)) "a" 1 hscans
  have hreplies : vs.map Visit.reply =
      [.ok (some ["a1"]), .error (.store down), .ok (some ["a2"]), .ok none, .ok none] := by
    have hrun : (visits answer (.at "a" 1) ss).map (List.map Visit.reply) =
        some [.ok (some ["a1"]), .error (.store down), .ok (some ["a2"]), .ok none, .ok none] := by cbv
    rw [hvisits] at hrun
    exact Option.some.inj hrun
  refine ⟨hscans, vs, hvisits, hreplies, ?_⟩
  -- the fourth call is the first to find no more
  obtain ⟨v₀, vs, rfl, -, h⟩ := List.map_eq_cons_iff.mp hreplies
  obtain ⟨v₁, vs, rfl, -, h⟩ := List.map_eq_cons_iff.mp h
  obtain ⟨v₂, vs, rfl, -, h⟩ := List.map_eq_cons_iff.mp h
  obtain ⟨v₃, vs, rfl, hnone, -⟩ := List.map_eq_cons_iff.mp h
  refine hcount [v₀, v₁, v₂] v₃ (List.prefix_append _ vs) hnone "a2" (by decide) fun w hw => ?_
  have hw : w.state ∈ ss.take 4 := by
    rw [← hstates]
    exact List.mem_map_of_mem hw
  revert hw
  generalize w.state = s
  revert s
  decide

end Pager

end Upkeep
