import Mathlib.Data.Bool.Count
import Mathlib.Data.List.Count
import Upkeep.Markers
import Upkeep.Proofs.Store.Faults
import Upkeep.Proofs.Table

/-!
Calls that set one marker, side by side. Each looks whether the marker is there and then sets it, in
two calls of the store, so that all who look before the first of them sets it take themselves for the
first. There is one winner exactly when the first to look sets the marker before anyone else looks.
-/

namespace Upkeep.Markers.Race

open Store

abbrev Run := Pool Unit work (Except Failure Bool) Logged

def Answered (P : Run) (answers : List Bool) : Prop :=
  P.running.map Prod.snd = answers.map fun won => .done (.ok won)

def calls (P : Run) : List Call := P.state.log.map Event.call

variable (m : Markers) (d : Did) (elsewhere : (r : Work.Request) → r.Reply)

def look : Call := .get (m.key d)

def mark : Call := .put (m.key d) (Utf8.encode d.text)

abbrev Step : Run → Run → Prop :=
  Pool.Step (fun _ r s x s' => Logged.failing .none elsewhere r s = (x, s'))
    fun _ p => p = m.register d

/-- What calls can get to that find these rows, in whatever order they join and take their turns. -/
abbrev Reachable (rows : Memory) : Run → Prop :=
  Pool.Reachable (fun _ r s x s' => Logged.failing .none elsewhere r s = (x, s'))
    (fun _ p => p = m.register d) ⟨⟨rows, []⟩, []⟩

inductive Stage where
  | toLook
  | toMark
  | ended (won : Bool)
  deriving DecidableEq

namespace Stage

def program : Stage → Errand Bool
  | .toLook => m.register d
  | .toMark => (Work.put (m.key d) (Utf8.encode d.text)).onSuccess fun () => Work.ok true
  | .ended won => .done (.ok won)

def looked (isMarked : Bool) : Stage := if isMarked then .ended false else .toMark

def turns : Stage → Nat
  | .toLook => 0
  | .toMark | .ended false => 1
  | .ended true => 2

theorem turns_le (g : Stage) : g.turns ≤ 2 := by
  rcases g with _ | _ | _ | _ <;> decide

theorem sum_turns_le (stages : List Stage) : (stages.map turns).sum ≤ 2 * stages.length := by
  induction stages with
  | nil => exact Nat.le_refl _
  | cons g stages ih =>
      have hg := g.turns_le
      rw [List.map_cons, List.sum_cons, List.length_cons]
      omega

theorem turns_looked (isMarked : Bool) : (looked isMarked).turns = 1 := by
  cases isMarked <;> rfl

end Stage

def At (P : Run) (stages : List Stage) : Prop :=
  P.running.map Prod.snd = stages.map (Stage.program m d)

variable {m d elsewhere} {P Q : Run} {stages : List Stage}

inductive Advance (m : Markers) (d : Did) (P Q : Run) : List Stage → List Stage → Prop
  | joined (stages : List Stage) (h : Q.state = P.state) : Advance m d P Q stages (stages ++ [.toLook])
  | looked (before after : List Stage) (h : Q.state = P.state.answer (look m d)) :
      Advance m d P Q (before ++ .toLook :: after)
        (before ++ .looked (P.state.memory.get? (m.key d)).isSome :: after)
  | marked (before after : List Stage) (h : Q.state = P.state.answer (mark m d)) :
      Advance m d P Q (before ++ .toMark :: after) (before ++ .ended true :: after)

private theorem program_looked (row : Option Bytes) :
    (Stage.looked row.isSome).program m d =
      match row with
      | some _ => Work.ok false
      | none => (Work.put (m.key d) (Utf8.encode d.text)).onSuccess fun () => Work.ok true := by
  cases row <;> rfl

theorem advance_of_step (hat : At m d P stages) (h : Step m d elsewhere P Q) :
    ∃ stages', At m d Q stages' ∧ Advance m d P Q stages stages' := by
  unfold At at hat
  cases h with
  | start hp =>
      refine ⟨stages ++ [.toLook], ?_, .joined stages ?_⟩
      · rw [hp, At, List.map_append, hat, List.map_append]
        rfl
      · rfl
  | @move s s' before after k r next x ht =>
      rw [List.map_append, List.map_cons, eq_comm, List.map_eq_append_iff] at hat
      obtain ⟨first, _, rfl, hfirst, hrest⟩ := hat
      obtain ⟨g, last, rfl, hg, hlast⟩ := List.map_eq_cons_iff.mp hrest
      have hmoved : ∀ g' : Stage, next x = g'.program m d →
          At m d ⟨s', before ++ (k, next x) :: after⟩ (first ++ g' :: last) := by
        intro g' hg'
        rw [At, List.map_append, List.map_append, List.map_cons, List.map_cons, hfirst, hlast, ← hg']
      cases g with
      | toLook =>
          cases hg
          cases ht
          refine ⟨_, hmoved (.looked (s.memory.get? (m.key d)).isSome) ?_, .looked first last rfl⟩
          rw [program_looked]
          rfl
      | toMark =>
          cases hg
          cases ht
          exact ⟨_, hmoved (.ended true) rfl, .marked first last rfl⟩
      | ended won => cases hg

/-- The calls that have looked and found no marker, whatever they have done since. -/
def hopefuls (stages : List Stage) : Nat := stages.count .toMark + stages.count (.ended true)

/-- What the store was asked, and what it holds: as long as there is no marker, only looks; then the
first setting, and after it anything. All who looked before it are hopefuls, and nobody else. -/
inductive History (m : Markers) (d : Did) (P : Run) (stages : List Stage) : Prop
  | unmarked (h : calls P = List.replicate (hopefuls stages) (look m d))
      (hrow : P.state.memory.get? (m.key d) = none) (hwon : stages.count (.ended true) = 0)
      (hlost : stages.count (.ended false) = 0)
  | marked (rest : List Call)
      (h : calls P = List.replicate (hopefuls stages) (look m d) ++ mark m d :: rest)
      (hrow : P.state.memory.get? (m.key d) = some (Utf8.encode d.text))
      (hwon : 0 < stages.count (.ended true))

structure Sound (m : Markers) (d : Did) (P : Run) (stages : List Stage) : Prop where
  program : At m d P stages
  turns : P.state.log.length = (stages.map Stage.turns).sum
  history : History m d P stages

private theorem calls_answer {c : Call} (h : Q.state = P.state.answer c) :
    calls Q = calls P ++ [c] := by
  rw [calls, h, Logged.answer, List.map_append]
  rfl

private theorem row_look (h : Q.state = P.state.answer (look m d)) (key : String) :
    Q.state.memory.get? key = P.state.memory.get? key := by
  rw [h]
  rfl

private theorem row_mark (h : Q.state = P.state.answer (mark m d)) :
    Q.state.memory.get? (m.key d) = some (Utf8.encode d.text) := by
  rw [h]
  exact Table.get?_insert_self _ _ _

private theorem sum_turns {g k : Stage} (before after : List Stage) (h : k.turns = g.turns + 1) :
    ((before ++ k :: after).map Stage.turns).sum =
      ((before ++ g :: after).map Stage.turns).sum + 1 := by
  simp only [List.map_append, List.map_cons, List.sum_append, List.sum_cons, h]
  omega

theorem Advance.turns {stages' : List Stage} (h : Advance m d P Q stages stages')
    (hturns : P.state.log.length = (stages.map Stage.turns).sum) :
    Q.state.log.length = (stages'.map Stage.turns).sum := by
  cases h with
  | joined _ h => simp [h, hturns, Stage.turns]
  | looked before after h =>
      have hsum := sum_turns (g := .toLook) before after
        (Stage.turns_looked (P.state.memory.get? (m.key d)).isSome)
      rw [hsum, ← hturns, h, Logged.answer, List.length_append, List.length_singleton]
  | marked before after h =>
      have hsum := sum_turns (g := .toMark) (k := .ended true) before after rfl
      rw [hsum, ← hturns, h, Logged.answer, List.length_append, List.length_singleton]

theorem Advance.history {stages' : List Stage} (h : Advance m d P Q stages stages')
    (hhistory : History m d P stages) : History m d Q stages' := by
  cases h with
  | joined _ h =>
      have hcalls : calls Q = calls P := by rw [calls, calls, h]
      have hhopefuls : hopefuls (stages ++ [.toLook]) = hopefuls stages := by simp [hopefuls]
      cases hhistory with
      | unmarked hc hrow hwon hlost =>
          exact .unmarked (by rw [hcalls, hhopefuls, hc]) (by rw [h, hrow]) (by simp [hwon])
            (by simp [hlost])
      | marked rest hc hrow hwon =>
          exact .marked rest (by rw [hcalls, hhopefuls, hc]) (by rw [h, hrow]) (by simp [hwon])
  | looked before after h =>
      have hcalls := calls_answer h
      have hsame := row_look h (m.key d)
      cases hhistory with
      | unmarked hc hrow hwon hlost =>
          -- nobody has set the marker yet, so one more takes itself for the first
          simp only [hrow, Option.isSome_none, Stage.looked]
          refine .unmarked ?_ (hsame.trans hrow) (by simpa using hwon) (by simpa using hlost)
          rw [hcalls, hc, ← List.replicate_succ']
          congr 1
          simp [hopefuls]
          omega
      | marked rest hc hrow hwon =>
          -- the marker is there, so this one has lost
          simp only [hrow, Option.isSome_some, Stage.looked]
          refine .marked (rest ++ [look m d]) ?_ (hsame.trans hrow) (by simpa using hwon)
          rw [hcalls, hc]
          simp [hopefuls]
  | marked before after h =>
      have hcalls := calls_answer h
      have hhopefuls : hopefuls (before ++ .ended true :: after) =
          hopefuls (before ++ .toMark :: after) := by
        simp [hopefuls]
        omega
      have hwon : 0 < (before ++ .ended true :: after).count (Stage.ended true) :=
        List.count_pos_iff.mpr (by simp)
      cases hhistory with
      | unmarked hc => exact .marked [] (by rw [hcalls, hc, hhopefuls]) (row_mark h) hwon
      | marked rest hc =>
          exact .marked (rest ++ [mark m d]) (by rw [hcalls, hc, hhopefuls, List.append_assoc]; rfl)
            (row_mark h) hwon

theorem sound_of_reachable {rows : Memory} (habsent : rows.get? (m.key d) = none)
    (h : Reachable m d elsewhere rows P) : ∃ stages, Sound m d P stages := by
  refine h.invariant (fun P => ∃ stages, Sound m d P stages) ?_ ?_
  · exact ⟨[], rfl, rfl, .unmarked rfl habsent rfl rfl⟩
  · rintro P Q ⟨stages, hprogram, hturns, hhistory⟩ hstep
    obtain ⟨stages', hat, hadvance⟩ := advance_of_step hprogram hstep
    exact ⟨stages', hat, hadvance.turns hturns, hadvance.history hhistory⟩

/-! How it ends. -/

private theorem eq_ended {g : Stage} {won : Bool} (h : g.program m d = .done (.ok won)) :
    g = .ended won := by
  cases g with
  | toLook => cases h
  | toMark => cases h
  | ended won' =>
      cases h
      rfl

theorem At.eq_of_answered {answers : List Bool} (hat : At m d P stages) (h : Answered P answers) :
    stages = answers.map .ended := by
  have hsame : stages.map (Stage.program m d) = answers.map fun won => .done (.ok won) :=
    hat.symm.trans h
  clear hat h
  induction answers generalizing stages with
  | nil => exact List.map_eq_nil_iff.mp hsame
  | cons won answers ih =>
      obtain ⟨g, rest, rfl, hg, hrest⟩ := List.map_eq_cons_iff.mp hsame
      rw [eq_ended hg, ih hrest, List.map_cons]

private theorem asks {g : Stage} (h : ∀ won, g ≠ .ended won) :
    ∃ c, ∃ next : Reply c → Errand Bool, g.program m d = Program.ask (Work.Request.store c) next := by
  cases g with
  | toLook => exact ⟨look m d, _, rfl⟩
  | toMark => exact ⟨mark m d, _, rfl⟩
  | ended won => exact absurd rfl (h won)

private theorem ended_or_pending (stages : List Stage) :
    (∃ answers : List Bool, stages = answers.map .ended) ∨
      ∃ g ∈ stages, ∀ won, g ≠ Stage.ended won := by
  induction stages with
  | nil => exact .inl ⟨[], rfl⟩
  | cons g stages ih =>
      obtain ⟨answers, rfl⟩ | ⟨g', hg', hpending⟩ := ih
      · cases g with
        | ended won => exact .inl ⟨won :: answers, rfl⟩
        | toLook => exact .inr ⟨.toLook, List.mem_cons_self, nofun⟩
        | toMark => exact .inr ⟨.toMark, List.mem_cons_self, nofun⟩
      · exact .inr ⟨g', List.mem_cons_of_mem _ hg', hpending⟩

/-- As long as a call has not returned, one can take a turn. -/
theorem At.answered_or_step (hat : At m d P stages) :
    (∃ answers, Answered P answers) ∨
      ∃ Q, Step m d elsewhere P Q ∧ Q.state.log.length = P.state.log.length + 1 := by
  rcases ended_or_pending stages with ⟨answers, rfl⟩ | ⟨g, hg, hpending⟩
  · exact .inl ⟨answers, hat.trans List.map_map⟩
  · obtain ⟨c, next, hask⟩ := asks (m := m) (d := d) hpending
    obtain ⟨state, running⟩ := P
    have hmem : g.program m d ∈ running.map Prod.snd := hat ▸ List.mem_map_of_mem hg
    obtain ⟨⟨k, p⟩, hmem, hp⟩ := List.mem_map.mp hmem
    obtain ⟨before, after, rfl⟩ := List.append_of_mem hmem
    obtain rfl : p = .ask (.store c) next := hp.trans hask
    exact .inr ⟨_, .move before after rfl, List.length_append⟩

/-- The first look, then the first setting: one who looks has set the marker before anyone else
looks. -/
theorem replicate_eq_look_mark (n : Nat) (rest : List Call) :
    (∃ rest', List.replicate (n + 1) (look m d) ++ mark m d :: rest =
      look m d :: mark m d :: rest') ↔ n = 0 := by
  constructor
  · rintro ⟨rest', h⟩
    cases n with
    | zero => rfl
    | succ n =>
        have hsecond : look m d = mark m d := (List.cons.inj (List.cons.inj h).2).1
        cases hsecond
  · rintro rfl
    exact ⟨rest, rfl⟩

/-- Calls for one marker that is not there, however many, and in whatever order they take their turns:
they return, after at most two turns each. Those that looked before the marker was set take
themselves for the first, at least one of them, and all others do not; so there is one winner exactly
when the second thing that the store is asked for is to set the marker. -/
theorem sole_winner_iff {rows : Memory} (habsent : rows.get? (m.key d) = none)
    (h : Reachable m d elsewhere rows P) :
    P.state.log.length ≤ 2 * P.running.length ∧
      ((∃ answers, Answered P answers) ∨
        ∃ Q, Step m d elsewhere P Q ∧ Q.state.log.length = P.state.log.length + 1) ∧
      ∀ answers, Answered P answers → answers ≠ [] →
        (∃ n rest, calls P = List.replicate (n + 1) (look m d) ++ mark m d :: rest ∧
          answers.count true = n + 1) ∧
        P.state.memory.get? (m.key d) = some (Utf8.encode d.text) ∧
        (answers.count true = 1 ↔ ∃ rest, calls P = look m d :: mark m d :: rest) := by
  obtain ⟨stages, hsound⟩ := sound_of_reachable habsent h
  refine ⟨?_, hsound.program.answered_or_step, fun answers hanswers hne => ?_⟩
  · have hlength : P.running.length = stages.length := by
      rw [← List.length_map Prod.snd, hsound.program, List.length_map]
    rw [hsound.turns, hlength]
    exact Stage.sum_turns_le stages
  · obtain rfl := hsound.program.eq_of_answered hanswers
    have hcount (won : Bool) : (answers.map Stage.ended).count (.ended won) = answers.count won :=
      List.count_map_of_injective answers Stage.ended (fun _ _ h => Stage.ended.inj h) won
    have hmark : (answers.map Stage.ended).count .toMark = 0 :=
      List.count_eq_zero.mpr fun hmem => by
        obtain ⟨won, -, hwon⟩ := List.mem_map.mp hmem
        cases hwon
    cases hsound.history with
    | unmarked _ _ hwon hlost =>
        rw [hcount] at hwon hlost
        have hlength := List.count_true_add_count_false answers
        rw [hwon, hlost] at hlength
        exact absurd (List.length_eq_zero_iff.mp hlength.symm) hne
    | marked rest hcalls hrow hwon =>
        rw [hcount] at hwon
        rw [hopefuls, hmark, hcount, Nat.zero_add] at hcalls
        obtain ⟨n, hn⟩ := Nat.exists_eq_succ_of_ne_zero (Nat.ne_of_gt hwon)
        rw [hn] at hcalls
        refine ⟨⟨n, rest, hcalls, hn⟩, hrow, ?_⟩
        rw [hcalls, replicate_eq_look_mark, hn]
        omega

/-- Two calls, of which the second looks once the first has set the marker. -/
theorem sole_winner_in_turn :
    let m : Markers := ⟨"refresh", 100⟩
    let d : Did := ⟨"did:a:b", by decide⟩
    ∃ P, Table.get? ([] : Memory) (m.key d) = none ∧ Reachable m d Memory.nobody [] P ∧
      Answered P [true, false] ∧ calls P = [look m d, mark m d, look m d] ∧
      ([true, false].count true = 1 ↔ ∃ rest, calls P = look m d :: mark m d :: rest) := by
  intro m d
  have h0 : Reachable m d Memory.nobody [] ⟨⟨[], []⟩, []⟩ := .refl
  have h1 := h0.step (.start (k := ()) rfl)
  have h2 := h1.step (.move [] [] rfl)
  have h3 := h2.step (.move [] [] rfl)
  have h4 := h3.step (.start (k := ()) rfl)
  have h5 := h4.step (.move [((), Stage.program m d (.ended true))] [] rfl)
  have hends := (sole_winner_iff rfl h5).2.2 [true, false] rfl (by decide)
  exact ⟨_, rfl, h5, rfl, rfl, hends.2.2⟩

/-- Two calls that both look before either sets the marker both take themselves for the first. -/
theorem two_winners :
    let m : Markers := ⟨"refresh", 100⟩
    let d : Did := ⟨"did:a:b", by decide⟩
    ¬ ∀ P, Reachable m d Memory.nobody [] P → ∀ answers, Answered P answers → answers ≠ [] →
      answers.count true = 1 := by
  intro m d hsole
  have h0 : Reachable m d Memory.nobody [] ⟨⟨[], []⟩, []⟩ := .refl
  have h1 := h0.step (.start (k := ()) rfl)
  have h2 := h1.step (.start (k := ()) rfl)
  have h3 := h2.step (.move [] [((), m.register d)] rfl)
  have h4 := h3.step (.move [((), Stage.program m d .toMark)] [] rfl)
  have h5 := h4.step (.move [] [((), Stage.program m d .toMark)] rfl)
  have h6 := h5.step (.move [((), Stage.program m d (.ended true))] [] rfl)
  exact absurd (hsole _ h6 [true, true] rfl (by decide)) (by decide)

end Upkeep.Markers.Race
