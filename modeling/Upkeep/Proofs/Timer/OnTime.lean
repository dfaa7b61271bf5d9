import Upkeep.Proofs.Start
import Upkeep.Proofs.Timer.Stagger
import Upkeep.Proofs.Timer.Steady

/-!
The ticks of all identifiers that are kept up from a start on. Each begins at its own instant: so many
staggers after the start as the identifier has others before it, and then once in every period.
-/

namespace Upkeep

open Timeline

namespace Caretaker

variable {σ ε : Type} {o : Outside σ} {k : Caretaker ε} {plan : Plan} {ds : List Did} {s : σ}
  {h : Handle} {t : Timeline σ} {i : Nat} {d : Did}

def rhythm (h : Handle) (plan : Plan) (i : Nat) : Rhythm :=
  ⟨⟨h.registry, i⟩, (startDelay plan.stagger i).toNanos, plan.period⟩

theorem isLeft (hperform : o.perform = k.perform)
    (hprovider : ∀ d, Work.Obeys (Conduct.without ⟨h.registry, i⟩ : Conduct σ) (k.provider d))
    (hpos : 0 < plan.period.toNanos) : (rhythm h plan i).IsLeft o where
  obeys _ hchore := hperform ▸ k.obeys_without hprovider hchore
  recur _ _ _ := hperform ▸ rfl
  pos := hpos

/-- At the start the timers of all others keep off the permit of each. -/
theorem Started.beats (hs : Started o plan ds (Timeline.start s false) h t)
    (hleft : (rhythm h plan i).IsLeft o) (hd : ds[i]? = some d) : (rhythm h plan i).Beats o 0 t := by
  have hi : i < ds.length := (List.getElem?_eq_some_iff.mp hd).1
  have hshot (j : Nat) : t.shots[j]? = ds[j]?.map fun d => ⟨startDelay plan.stagger j,
      0 + (startDelay plan.stagger j).toNanos, ⟨h.registry, j⟩, h.chain d j, false⟩ := by
    rw [hs.shots]
    exact List.getElem?_mapIdx
  have hticker {j : Nat} {r : Ticker} (hr : t.tickers[j]? = some r) :
      r.chore = .sweep ∧ r.permit = ⟨h.registry, ds.length⟩ := (hs.tickers j r hr).resolve_left nofun
  have honly : Only ⟨h.registry, i⟩ none t := by
    refine ⟨hs.room, Nat.lt_of_lt_of_le hi hs.issued, fun j q hq heq => ?_⟩
    rw [List.getElem?_map] at hq
    obtain ⟨r, hr, rfl⟩ := Option.map_eq_some_iff.mp hq
    rw [(hticker hr).2] at heq
    exact absurd (Permit.mk.inj heq).2 (Nat.ne_of_gt hi)
  have hminds : Minds o (.without ⟨h.registry, i⟩) (some i) t := by
    refine ⟨fun e he j hj => ?_, fun j shot hj _ hne => ?_, fun j r hr => ?_⟩
    · obtain ⟨d', rfl⟩ := (hs.jobs e he j hj).resolve_left nofun
      exact hleft.obeys _ trivial
    · rw [hshot, Option.map_eq_some_iff] at hj
      obtain ⟨d', -, rfl⟩ := hj
      refine hleft.obeys _ ⟨fun heq => hne ?_, trivial⟩
      exact congrArg some (Permit.mk.inj heq).2.symm
    · rw [(hticker hr).1]
      exact hleft.obeys _ trivial
  have hfirst : t.shots[i]? = some ⟨startDelay plan.stagger i,
      0 + (startDelay plan.stagger i).toNanos, ⟨h.registry, i⟩, h.chain d i, false⟩ := by
    rw [hshot, hd]
    rfl
  refine ⟨⟨some i, none, .pending (c := .refresh d) hfirst rfl rfl (Nat.zero_add _) ?_ trivial ?_,
    hminds, honly⟩, fun hruns => absurd hruns honly.idle⟩
  · rw [Handle.chain, hs.handle]
    rfl
  · rw [hs.instant]
    exact Nat.zero_le _

/-- From a start on, each identifier that is marked has its ticks at instants of its own, whatever
becomes of its ticks and of all others, as long as it is not cancelled and each of its ticks ends
within the period. -/
theorem ticks_of_start {held : σ → Store.Memory} (ho : o.Stores held) (k : Caretaker ε) (plan : Plan)
    (hperform : o.perform = k.perform) (hasc : Table.Ascending (held s))
    (hpos : 0 < plan.period.toNanos) (hd : (k.markers.listed (held s))[i]? = some d)
    (hplace : i ≤ maxPlace) (hfits : i * plan.stagger.toNanos ≤ Duration.max.toNanos)
    (hprovider : ∀ d, Work.Obeys (Conduct.without ⟨h.registry, i⟩ : Conduct σ) (k.provider d))
    (hstart : (Timeline.start s false).run o (k.start plan) = (some (.ok h), t)) :
    (t.registry h.registry).entered.get? d = some i ∧
      ∀ begun t', Ticked o (.without ⟨h.registry, i⟩) ⟨h.registry, i⟩ plan.period.toNanos t begun t' →
        t'.permits ⟨h.registry, i⟩ = true →
          (∀ (n : Nat) b, begun[n]? = some b →
            b = i * plan.stagger.toNanos + (n + 1) * plan.period.toNanos) ∧
          ∀ n : Nat, i * plan.stagger.toNanos + (n + 1) * plan.period.toNanos < t'.instant →
            n < begun.length := by
  have hasc' : Table.Ascending (held (Timeline.start s false).outside) := hasc
  obtain ⟨hstarted, -⟩ := started_of_run ho k plan hasc' hstart
  have hleft : (rhythm h plan i).IsLeft o := isLeft hperform hprovider hpos
  have hw : Wakeful none t := by
    have hacts := Acts.drive (t := Timeline.start s false) rfl o (k.start plan)
    rw [run_eq_some.mp hstart] at hacts
    exact (wakeful_start s).acts hacts
  have hdue (n : Nat) : (rhythm h plan i).due n =
      i * plan.stagger.toNanos + n * plan.period.toNanos := by
    rw [Rhythm.due, rhythm, toNanos_startDelay hplace hfits]
  refine ⟨hstarted.entered i d hd, fun begun t' hlife hgood => ?_⟩
  obtain ⟨hbeats, htimes⟩ := (hstarted.beats hleft hd).ticked hleft hw hlife hgood
  refine ⟨fun n b hb => (htimes n b hb).trans (hdue _), fun n hn => ?_⟩
  by_contra hnot
  have hle := hbeats.instant_le.trans ((rhythm h plan i).due_mono
    (Nat.succ_le_succ (Nat.not_lt.mp hnot)))
  rw [hdue] at hle
  exact absurd hn (Nat.not_lt.mpr hle)

def dying : Caretaker Expiry.Error :=
  ⟨fun d => Work.ask (.consult d), ⟨1, .zero⟩, Expiry.decoder, 10, ⟨"refresh", 10⟩, 10⟩

def brisk : Plan := ⟨.ofSeconds 2, .ofSeconds 1, .ofSeconds 600, none⟩

def twoMarked : Desk := ⟨[("refresh:did:a:a", []), ("refresh:did:a:b", [])], 1000⟩

def twoOutside : Outside Desk := .granting ⟨"access", none, 3600, none⟩ dying.perform

def twoStarted : Timeline Desk :=
  ((Timeline.start twoMarked false).run twoOutside (dying.start brisk)).2

/-- The first of two identifiers is cancelled after its first tick, and the second is about to tick. -/
def secondAlone : Timeline Desk :=
  let o := twoOutside
  let t := ((twoStarted.takeNext o).takeNext o).takeNext o
  let t := (({ t with instant := 1000000000 }.takeNext o).takeNext o).takeNext o
  let t := (t.run o (Handle.cancel ⟨0, .ofSeconds 1⟩ ⟨"did:a:a", rfl⟩)).2
  let t := (({ t with instant := 2000000000 }.takeNext o).takeNext o).takeNext o
  { t with instant := 3000000000 }

def secondAgain : Timeline Desk :=
  let t := ((secondAlone.takeNext twoOutside).takeNext twoOutside).takeNext twoOutside
  { t with instant := 4000000000 }

theorem twoStarted_run : (Timeline.start twoMarked false).run twoOutside (dying.start brisk) =
    (some (.ok ⟨0, .ofSeconds 1⟩), twoStarted) :=
  run_eq_ok (by decide +kernel)

theorem secondAgain_life : Ticked twoOutside (.without ⟨0, 1⟩) ⟨0, 1⟩ brisk.period.toNanos twoStarted
    [3000000000, 4000000000] (secondAgain.takeNext twoOutside) := by
  have hbefore : Ticked twoOutside (.without ⟨0, 1⟩) ⟨0, 1⟩ brisk.period.toNanos twoStarted []
      secondAlone := by
    refine ((((((((((((Ticked.refl.idle (.takeNext ?_) ?_).idle (.takeNext ?_) ?_).idle
      (.takeNext ?_) ?_).idle (.pass_to ?_ ?_ trivial) ?_).idle (.takeNext ?_) ?_).idle
      (.takeNext ?_) ?_).idle (.takeNext ?_) ?_).idle
      (.run (Handle.Call.obeys_without _ _ (.cancel _))) ?_).idle (.pass_to ?_ ?_ trivial) ?_).idle
      (.takeNext ?_) ?_).idle (.takeNext ?_) ?_).idle (.takeNext ?_) ?_).idle
      (.pass_to ?_ ?_ trivial) ?_
    all_goals decide +kernel
  -- Its first tick begins, and dies.
  have hthree : (secondAlone.takeNext twoOutside).instant = 3000000000 := by decide +kernel
  have hbegins : secondAlone.BeginsFor ⟨0, 1⟩ (secondAlone.takeNext twoOutside) :=
    beginsFor_of_phases (k := 1) 3000000000 4000000000 (by decide +kernel)
      (by decide +kernel)
  have hfirst := hbefore.tick (.takeNext (by decide +kernel)) hbegins
  have hbetween : Ticked twoOutside (.without ⟨0, 1⟩) ⟨0, 1⟩ brisk.period.toNanos twoStarted
      [3000000000] secondAgain := by
    refine (((hthree ▸ hfirst).idle (.takeNext ?_) ?_).idle (.takeNext ?_) ?_).idle
      (.pass_to ?_ ?_ trivial) ?_
    all_goals decide +kernel
  -- The next one begins all the same.
  have hfour : (secondAgain.takeNext twoOutside).instant = 4000000000 := by decide +kernel
  have hagain : secondAgain.BeginsFor ⟨0, 1⟩ (secondAgain.takeNext twoOutside) :=
    beginsFor_of_phases (k := 1) 4000000000 5000000000 (by decide +kernel)
      (by decide +kernel)
  exact hfour ▸ hbetween.tick (.takeNext (by decide +kernel)) hagain

/-- The second identifier ticks at three and at four seconds, and that is all of its ticks by then: the
first one dies, and the other identifier is cancelled. -/
theorem ticks_of_second :
    let t' := secondAgain.takeNext twoOutside
    let begun := [3000000000, 4000000000]
    (Timeline.start twoMarked false).run twoOutside (dying.start brisk) =
        (some (.ok ⟨0, .ofSeconds 1⟩), twoStarted) ∧
      (twoStarted.registry 0).entered.get? ⟨"did:a:b", by decide⟩ = some 1 ∧
      (secondAlone.registry 0).entered.get? ⟨"did:a:a", by decide⟩ = none ∧
      Ticked twoOutside (.without ⟨0, 1⟩) ⟨0, 1⟩ brisk.period.toNanos twoStarted begun t' ∧
      t'.permits ⟨0, 1⟩ = true ∧
      (∀ (n : Nat) b, begun[n]? = some b →
        b = 1 * brisk.stagger.toNanos + (n + 1) * brisk.period.toNanos) ∧
      ∀ n : Nat, 1 * brisk.stagger.toNanos + (n + 1) * brisk.period.toNanos < t'.instant →
        n < begun.length := by
  intro t' begun
  have hasc : Table.Ascending twoMarked.rows := by
    rw [Table.ascending_iff_keys]
    decide +kernel
  have hstores : twoOutside.Stores Desk.rows := Outside.granting_stores _ _
  have hgood : t'.permits ⟨0, 1⟩ = true := by decide +kernel
  obtain ⟨hentered, hticks⟩ := ticks_of_start (i := 1) (d := ⟨"did:a:b", by decide⟩) hstores dying
    brisk rfl hasc (by decide) (by decide +kernel) (by decide) (by decide)
    (fun _ => ⟨trivial, fun _ _ => trivial⟩) twoStarted_run
  obtain ⟨htimes, hall⟩ := hticks begun t' secondAgain_life hgood
  exact ⟨twoStarted_run, hentered, by decide +kernel, secondAgain_life, hgood, htimes, hall⟩

end Caretaker

end Upkeep
