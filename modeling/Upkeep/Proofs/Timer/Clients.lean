import Upkeep.Proofs.Timeline
import Upkeep.Proofs.Timer.Registry
import Upkeep.Timer.Handle

/-!
Calls on one handle side by side. Any number of clients track, cancel and shut down, one request at
a time and in any order. A client stands at one of a few stages, and a turn has one of a few effects
on the registry, the timers and the log of what happened.
-/

namespace Upkeep

namespace Handle

variable {σ : Type}

inductive Call where
  | track (d : Did) (delay : Duration)
  | cancel (d : Did)
  | shutDown

def Call.activity (h : Handle) : Call → Work Bool
  | .track d delay => h.track d delay
  | .cancel d => h.cancel d
  | .shutDown => h.shutDown.bind fun _ => .done true

/-- What the timer of an identifier does when it fires. -/
def chain (h : Handle) (d : Did) (serial : Nat) : Chore :=
  .recur h.period ⟨h.registry, serial⟩ (.refresh d)

def handOver (h : Handle) (d : Did) (delay : Duration) (serial : Nat) : Work Bool :=
  (Work.ask (.after delay ⟨h.registry, serial⟩ (h.chain d serial))).bind fun _ => .done true

def clearing (h : Handle) : Work Bool :=
  (Work.ask (.clear h.registry)).bind fun _ => .done true

structure Client where
  call : Call
  /-- What it has still to do. -/
  rest : Work Bool

inductive Mark where
  | began (client : Nat)
  | entered (client : Nat) (d : Did) (serial : Nat)
  | answered (client : Nat) (answer : Bool)
  deriving DecidableEq

def Mark.client : Mark → Nat
  | .began i | .entered i _ _ | .answered i _ => i

structure Scene (σ : Type) where
  timeline : Timeline σ
  clients : List Client
  log : List Mark

inductive Move where
  | start (call : Call)
  | turn (client : Nat)

namespace Scene

def registry (h : Handle) (s : Scene σ) : Registry := s.timeline.registry h.registry

def answer (client : Nat) : Work Bool → List Mark
  | .done b => [.answered client b]
  | _ => []

def entries (h : Handle) (client : Nat) (before after : Timeline σ) : List Mark :=
  ((after.registry h.registry).entered.filter (· ∉ (before.registry h.registry).entered)).map
    fun p => .entered client p.1 p.2

def turn (o : Outside σ) (h : Handle) (s : Scene σ) (client : Nat) : Scene σ :=
  match s.clients[client]? with
  | some ⟨call, Program.ask r next⟩ =>
    let p := s.timeline.perform o r
    let rest := match p.reply with
      | some x => next x
      | none => .abandon
    ⟨p.timeline, s.clients.set client ⟨call, rest⟩,
      s.log ++ (entries h client s.timeline p.timeline ++ answer client rest)⟩
  | _ => s

def move (o : Outside σ) (h : Handle) (s : Scene σ) : Move → Scene σ
  | .start call =>
    { s with clients := s.clients ++ [⟨call, call.activity h⟩]
             log := s.log ++ [.began s.clients.length] }
  | .turn client => s.turn o h client

def play (o : Outside σ) (h : Handle) (moves : List Move) (s : Scene σ) : Scene σ :=
  moves.foldl (move o h) s

inductive Effect (h : Handle) (i : Nat) (s : Scene σ) : Scene σ → Prop
  | idle (hc : ∀ c, s.clients[i]? = some c → ∃ b, c.rest = .done b) : Effect h i s s
  | enter {d : Did} {delay : Duration}
      (hc : s.clients[i]? = some ⟨.track d delay, h.track d delay⟩)
      (hna : ∀ b, .answered i b ∉ s.log) (hopen : (s.registry h).isShut = false)
      (hnew : (s.registry h).entered.get? d = none) :
      Effect h i s
        ⟨s.timeline.setRegistry h.registry ((s.registry h).enter d),
          s.clients.set i ⟨.track d delay, h.handOver d delay (s.registry h).issued⟩,
          s.log ++ [.entered i d (s.registry h).issued]⟩
  | refuse {d : Did} {delay : Duration}
      (hc : s.clients[i]? = some ⟨.track d delay, h.track d delay⟩)
      (hno : ∀ d serial, .entered i d serial ∉ s.log) (hna : ∀ b, .answered i b ∉ s.log) :
      Effect h i s
        ⟨s.timeline, s.clients.set i ⟨.track d delay, .done false⟩, s.log ++ [.answered i false]⟩
  | handOver {d : Did} {delay : Duration} {serial : Nat}
      (hc : s.clients[i]? = some ⟨.track d delay, h.handOver d delay serial⟩)
      (hin : .entered i d serial ∈ s.log) (hna : ∀ b, .answered i b ∉ s.log) :
      Effect h i s
        ⟨s.timeline.addShot delay ⟨h.registry, serial⟩ (h.chain d serial),
          s.clients.set i ⟨.track d delay, .done true⟩, s.log ++ [.answered i true]⟩
  | strike {d : Did} {serial : Nat} (hc : s.clients[i]? = some ⟨.cancel d, h.cancel d⟩)
      (hna : ∀ b, .answered i b ∉ s.log) (hin : (s.registry h).entered.get? d = some serial) :
      Effect h i s
        ⟨s.timeline.setRegistry h.registry ((s.registry h).leave d serial),
          s.clients.set i ⟨.cancel d, .done true⟩, s.log ++ [.answered i true]⟩
  | miss {d : Did} (hc : s.clients[i]? = some ⟨.cancel d, h.cancel d⟩)
      (hna : ∀ b, .answered i b ∉ s.log) :
      Effect h i s
        ⟨s.timeline, s.clients.set i ⟨.cancel d, .done false⟩, s.log ++ [.answered i false]⟩
  | shut (hc : s.clients[i]? = some ⟨.shutDown, Call.shutDown.activity h⟩)
      (hna : ∀ b, .answered i b ∉ s.log) :
      Effect h i s
        ⟨s.timeline.setRegistry h.registry (s.registry h).shut,
          s.clients.set i ⟨.shutDown, h.clearing⟩, s.log⟩
  | clear (hc : s.clients[i]? = some ⟨.shutDown, h.clearing⟩)
      (hshut : (s.registry h).isShut = true) (hna : ∀ b, .answered i b ∉ s.log) :
      Effect h i s
        ⟨s.timeline.setRegistry h.registry (s.registry h).clear,
          s.clients.set i ⟨.shutDown, .done true⟩, s.log ++ [.answered i true]⟩

/-- Where a client stands, and what the log and the registry say of it. -/
inductive Stage (h : Handle) (s : Scene σ) (i : Nat) : Client → Prop
  | fresh (call : Call) (hno : ∀ d serial, .entered i d serial ∉ s.log)
      (hna : ∀ b, .answered i b ∉ s.log) : Stage h s i ⟨call, call.activity h⟩
  | holding {d : Did} (delay : Duration) {serial : Nat} (hin : .entered i d serial ∈ s.log)
      (hna : ∀ b, .answered i b ∉ s.log) : Stage h s i ⟨.track d delay, h.handOver d delay serial⟩
  | tracked {d : Did} (delay : Duration) {serial : Nat} (hin : .entered i d serial ∈ s.log)
      (ha : ∀ b, .answered i b ∈ s.log ↔ b = true) : Stage h s i ⟨.track d delay, .done true⟩
  | refused (d : Did) (delay : Duration) (hno : ∀ d serial, .entered i d serial ∉ s.log)
      (ha : ∀ b, .answered i b ∈ s.log ↔ b = false) : Stage h s i ⟨.track d delay, .done false⟩
  | cancelled (d : Did) (a : Bool) (ha : ∀ b, .answered i b ∈ s.log ↔ b = a) :
      Stage h s i ⟨.cancel d, .done a⟩
  | shutting (hshut : (s.registry h).isShut = true) (hna : ∀ b, .answered i b ∉ s.log) :
      Stage h s i ⟨.shutDown, h.clearing⟩
  | ended (hshut : (s.registry h).isShut = true) (hempty : (s.registry h).entered = [])
      (ha : ∀ b, .answered i b ∈ s.log ↔ b = true) : Stage h s i ⟨.shutDown, .done true⟩

variable (o : Outside σ) {h : Handle} {s : Scene σ} {i : Nat} {call : Call}

theorem turn_done {b : Bool} (hc : s.clients[i]? = some ⟨call, .done b⟩) : s.turn o h i = s := by
  simp only [turn, hc]

theorem turn_ask {r : Work.Request} {next : r.Reply → Work Bool} {x : r.Reply} {t : Timeline σ}
    (hc : s.clients[i]? = some ⟨call, Program.ask (I := work) r next⟩)
    (hp : s.timeline.perform o r = Timeline.atOnce x t) :
    s.turn o h i =
      ⟨t, s.clients.set i ⟨call, next x⟩,
        s.log ++ (entries h i s.timeline t ++ answer i (next x))⟩ := by
  simp only [turn, hc, hp, Timeline.atOnce]

theorem turn_quiet {r : Work.Request} {next : r.Reply → Work Bool} {x : r.Reply} {t : Timeline σ}
    (hc : s.clients[i]? = some ⟨call, Program.ask (I := work) r next⟩)
    (hp : s.timeline.perform o r = Timeline.atOnce x t)
    (hsub : ∀ p ∈ (t.registry h.registry).entered, p ∈ (s.registry h).entered) :
    s.turn o h i = ⟨t, s.clients.set i ⟨call, next x⟩, s.log ++ answer i (next x)⟩ := by
  have hnil : (t.registry h.registry).entered.filter (· ∉ (s.registry h).entered) = [] :=
    List.filter_eq_nil_iff.mpr fun p hp => by simpa using hsub p hp
  rw [registry] at hnil
  rw [turn_ask o hc hp, entries, hnil, List.map_nil, List.nil_append]

theorem effect_track (hroom : h.registry < s.timeline.registries.length) {d : Did} {delay : Duration}
    (hc : s.clients[i]? = some ⟨.track d delay, h.track d delay⟩)
    (hno : ∀ d serial, .entered i d serial ∉ s.log) (hna : ∀ b, .answered i b ∉ s.log) :
    Effect h i s (s.turn o h i) := by
  by_cases hin : (s.registry h).isShut = true ∨ ((s.registry h).entered.get? d).isSome = true
  · have hp : s.timeline.perform o (.enroll h.registry d) =
        Timeline.atOnce (r := .enroll h.registry d) none s.timeline := by
      have henroll := Registry.enroll_refused hin
      rw [registry] at henroll
      simp only [Timeline.perform, henroll, Timeline.setRegistry_registry, Option.map_none]
    have hturn : s.turn o h i = ⟨s.timeline, s.clients.set i ⟨.track d delay, .done false⟩,
        s.log ++ [.answered i false]⟩ := turn_quiet o hc hp fun p hp => hp
    exact hturn ▸ .refuse hc hno hna
  · obtain ⟨hopen, hnew⟩ : (s.registry h).isShut = false ∧ (s.registry h).entered.get? d = none := by
      simpa using hin
    have hp : s.timeline.perform o (.enroll h.registry d) =
        Timeline.atOnce (r := .enroll h.registry d) (some ⟨h.registry, (s.registry h).issued⟩)
          (s.timeline.setRegistry h.registry ((s.registry h).enter d)) := by
      have henroll := Registry.enroll_eq hopen hnew
      simp only [registry] at henroll ⊢
      simp only [Timeline.perform, henroll, Option.map_some]
    have hentries : entries h i s.timeline
        (s.timeline.setRegistry h.registry ((s.registry h).enter d)) =
        [.entered i d (s.registry h).issued] := by
      rw [registry] at hnew ⊢
      rw [entries, Timeline.registry_setRegistry hroom, Registry.enter,
        Table.filter_insert_new (Table.get?_eq_none_iff.mp hnew), List.map_singleton]
    have hturn : s.turn o h i = ⟨s.timeline.setRegistry h.registry ((s.registry h).enter d),
        s.clients.set i ⟨.track d delay, h.handOver d delay (s.registry h).issued⟩,
        s.log ++ [.entered i d (s.registry h).issued]⟩ :=
      (turn_ask o hc hp).trans (by rw [hentries]; rfl)
    exact hturn ▸ .enter hc hna hopen hnew

theorem effect_cancel (hroom : h.registry < s.timeline.registries.length) {d : Did}
    (hc : s.clients[i]? = some ⟨.cancel d, h.cancel d⟩) (hna : ∀ b, .answered i b ∉ s.log) :
    Effect h i s (s.turn o h i) := by
  cases hin : (s.registry h).entered.get? d with
  | none =>
      have hp : s.timeline.perform o (.strike h.registry d) =
          Timeline.atOnce (r := .strike h.registry d) false s.timeline := by
        have hstrike := Registry.strike_missing hin
        rw [registry] at hstrike
        simp only [Timeline.perform, hstrike, Timeline.setRegistry_registry]
      have hturn : s.turn o h i = ⟨s.timeline, s.clients.set i ⟨.cancel d, .done false⟩,
          s.log ++ [.answered i false]⟩ := turn_quiet o hc hp fun p hp => hp
      exact hturn ▸ .miss hc hna
  | some serial =>
      have hp : s.timeline.perform o (.strike h.registry d) =
          Timeline.atOnce (r := .strike h.registry d) true
            (s.timeline.setRegistry h.registry ((s.registry h).leave d serial)) := by
        have hstrike := Registry.strike_eq hin
        simp only [registry] at hstrike ⊢
        simp only [Timeline.perform, hstrike]
      have hturn : s.turn o h i =
          ⟨s.timeline.setRegistry h.registry ((s.registry h).leave d serial),
            s.clients.set i ⟨.cancel d, .done true⟩, s.log ++ [.answered i true]⟩ := by
        refine turn_quiet o hc hp ?_
        rw [Timeline.registry_setRegistry hroom]
        exact fun p hp => Table.mem_of_mem_erase hp
      exact hturn ▸ .strike hc hna hin

theorem effect_shut (hroom : h.registry < s.timeline.registries.length)
    (hc : s.clients[i]? = some ⟨.shutDown, Call.shutDown.activity h⟩)
    (hna : ∀ b, .answered i b ∉ s.log) : Effect h i s (s.turn o h i) := by
  have hturn : s.turn o h i = ⟨s.timeline.setRegistry h.registry (s.registry h).shut,
      s.clients.set i ⟨.shutDown, h.clearing⟩, s.log⟩ := by
    refine (turn_quiet o hc (r := .shut h.registry) rfl ?_).trans ?_
    · rw [Timeline.registry_setRegistry hroom]
      exact fun p hp => hp
    · exact congrArg (Scene.mk _ _) (List.append_nil s.log)
  exact hturn ▸ .shut hc hna

theorem effect_clear (hroom : h.registry < s.timeline.registries.length)
    (hc : s.clients[i]? = some ⟨.shutDown, h.clearing⟩) (hshut : (s.registry h).isShut = true)
    (hna : ∀ b, .answered i b ∉ s.log) : Effect h i s (s.turn o h i) := by
  have hturn : s.turn o h i = ⟨s.timeline.setRegistry h.registry (s.registry h).clear,
      s.clients.set i ⟨.shutDown, .done true⟩, s.log ++ [.answered i true]⟩ := by
    refine turn_quiet o hc (r := .clear h.registry) rfl ?_
    rw [Timeline.registry_setRegistry hroom]
    exact fun p hp => nomatch hp
  exact hturn ▸ .clear hc hshut hna

theorem effect_handOver {d : Did} {delay : Duration} {serial : Nat}
    (hc : s.clients[i]? = some ⟨.track d delay, h.handOver d delay serial⟩)
    (hin : .entered i d serial ∈ s.log) (hna : ∀ b, .answered i b ∉ s.log) :
    Effect h i s (s.turn o h i) := by
  have hturn : s.turn o h i = ⟨s.timeline.addShot delay ⟨h.registry, serial⟩ (h.chain d serial),
      s.clients.set i ⟨.track d delay, .done true⟩, s.log ++ [.answered i true]⟩ := by
    refine turn_quiet o hc (r := .after ..) rfl ?_
    rw [Timeline.registry_addShot]
    exact fun p hp => hp
  exact hturn ▸ .handOver hc hin hna

/-- A turn of a client that stands somewhere has one of the effects. -/
theorem effect_turn (hroom : h.registry < s.timeline.registries.length)
    (hstage : ∀ c, s.clients[i]? = some c → Stage h s i c) : Effect h i s (s.turn o h i) := by
  cases hc : s.clients[i]? with
  | none =>
      have hturn : s.turn o h i = s := by simp only [turn, hc]
      exact hturn.symm ▸ .idle fun c hc' => nomatch hc.symm.trans hc'
  | some c =>
      cases hstage c hc with
      | fresh call hno hna =>
          cases call with
          | track d delay => exact effect_track o hroom hc hno hna
          | cancel d => exact effect_cancel o hroom hc hna
          | shutDown => exact effect_shut o hroom hc hna
      | holding delay hin hna => exact effect_handOver o hc hin hna
      | shutting hshut hna => exact effect_clear o hroom hc hshut hna
      | tracked | refused | cancelled | ended =>
          exact (turn_done o hc).symm ▸ .idle fun c' hc' =>
            ⟨_, congrArg Client.rest (Option.some.inj (hc'.symm.trans hc))⟩

end Scene

end Handle

end Upkeep
