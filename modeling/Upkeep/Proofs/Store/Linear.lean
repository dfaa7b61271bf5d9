import Upkeep.Proofs.Interleaving
import Upkeep.Proofs.Store.Turns
import Upkeep.Store.Interference

/-!
Calls on one store in a directory take effect one after another. However the steps of its clients are
interleaved, there is an order of calls in which a store in memory gives the replies that the clients
have and ends with the contents of the directory, and no call stands before one that was answered
before it began. A call takes its place in the order with the one step by which its reply is settled:
when it reads, renames or unlinks the file of its key.
-/

namespace Upkeep.Store

open Files FileNames

def Memory.after (calls : List Call) (m : Memory) : Memory :=
  calls.foldl (fun m c => (answer c m).2) m

theorem Memory.after_append (calls calls' : List Call) (m : Memory) :
    after (calls ++ calls') m = after calls' (after calls m) :=
  List.foldl_append

theorem Memory.replies_append (calls calls' : List Call) (m : Memory) :
    replies (calls ++ calls') m = replies calls m ++ replies calls' (after calls m) := by
  induction calls generalizing m with
  | nil => rfl
  | cons c calls ih => exact congrArg (_ :: ·) (ih _)

namespace FileStore

abbrev Order := List (Nat × ((c : Call) × Reply c))

def Order.calls (order : Order) : List Call := order.map fun p => p.2.1

theorem Order.calls_append (order order' : Order) :
    (order ++ order').calls = order.calls ++ order'.calls :=
  List.map_append

namespace Scene

/-- Whether a client has a next step, and no lock that it waits for. -/
def CanTurn (s : Scene) (i : Nat) : Prop :=
  ∃ c r next, s.clients[i]? = some ⟨c, .ask r next⟩ ∧ (step i r s.opened s.owner).isSome

def Precedes (s : Scene) (mark mark' : Mark) : Prop := [mark, mark'].Sublist s.log

end Scene

/-- An order of calls that accounts for a scene: a store in memory that holds `m₀` gives the replies
that are in it, and holds `m` in the end. -/
structure Ordered (m₀ : Memory) (s : Scene) (order : Order) (m : Memory) : Prop where
  replies : order.map Prod.snd = Memory.replies order.calls m₀
  contents : Memory.after order.calls m₀ = m
  /-- No client stands in the order twice. -/
  once : (order.map Prod.fst).Nodup
  begun : ∀ p ∈ order, ∃ rest, s.clients[p.1]? = some ⟨p.2.1, rest⟩
  answered : ∀ i, .answered i ∈ s.log ↔ ∃ c x, s.clients[i]? = some ⟨c, .done x⟩
  /-- No call stands before one that was answered before it began. -/
  realTime : order.Pairwise fun p q => ¬ s.Precedes (.answered q.1) (.began p.1)

/-- What a client's place in an order is, given the reply that is settled. -/
def Order.Places (order : Order) (i : Nat) (c : Call) : Option (Reply c) → Prop
  | none => ∀ p ∈ order, p.1 ≠ i
  | some x => (i, ⟨c, x⟩) ∈ order

theorem Order.Places.append {order : Order} {i j : Nat} {c : Call} {settled : Option (Reply c)}
    (h : order.Places j c settled) (hj : j ≠ i) (call : (c : Call) × Reply c) :
    Order.Places (order ++ [(i, call)]) j c settled := by
  cases settled with
  | none =>
      intro p hp
      rcases List.mem_append.mp hp with hp | hp
      · exact h p hp
      · rw [List.mem_singleton.mp hp]
        exact hj.symm
  | some x => exact List.mem_append_left _ h

def Owns (owner : Nat → Option Nat) (i : Nat) (lock : Option Nat) : Prop :=
  ∀ stripe, owner stripe = some i ↔ lock = some stripe

namespace Owns

variable {owner : Nat → Option Nat} {i stripe : Nat}

theorem take (h : Owns owner i none) (stripe : Nat) :
    Owns (Function.update owner stripe (some i)) i (some stripe) := fun stripe' => by
  by_cases hstripe : stripe' = stripe
  · simp [hstripe]
  · rw [Function.update_of_ne hstripe, h stripe']
    simp [Ne.symm hstripe]

theorem give (h : Owns owner i (some stripe)) :
    Owns (Function.update owner stripe none) i none := fun stripe' => by
  by_cases hstripe : stripe' = stripe
  · simp [hstripe]
  · rw [Function.update_of_ne hstripe, h stripe']
    simp [Ne.symm hstripe]

/-- Others take and give back other locks. -/
theorem update {lock holder : Option Nat} (h : Owns owner i lock) (hlock : lock ≠ some stripe)
    (hholder : holder ≠ some i) : Owns (Function.update owner stripe holder) i lock := fun stripe' => by
  by_cases hstripe : stripe' = stripe
  · subst hstripe
    rw [Function.update_self]
    exact iff_of_false hholder hlock
  · rw [Function.update_of_ne hstripe]
    exact h stripe'

end Owns

/-- Each client stands somewhere, has the lock it needs there, and has its place in the order once
its reply is settled. -/
structure Seats (f : FileStore) (s : Scene) (order : Order) (m : Memory) : Prop where
  mirrors : Mirrors s.opened m
  stands : ∀ i c p, s.clients[i]? = some ⟨c, p⟩ → ∃ lock settled,
    Stands f s.opened.disk m c p lock settled ∧ Owns s.owner i lock ∧ order.Places i c settled
  /-- Locks are held by clients. -/
  held : ∀ stripe i, s.owner stripe = some i → i < s.clients.length

variable {f : FileStore} {m₀ m m' : Memory} {s : Scene} {order order' : Order}

namespace Scene

theorem clients_start_cases {c : Call} {i : Nat} {cl : Client}
    (h : (s.move f (.start c)).clients[i]? = some cl) :
    s.clients[i]? = some cl ∨ i = s.clients.length ∧ cl = ⟨c, f.perform c⟩ :=
  getElem?_push_cases h

/-- A turn makes no other call of a call. -/
theorem mem_turn {i : Nat} {client : Client} (h : client ∈ (s.turn i).clients) :
    client.call ∈ s.clients.map Client.call := by
  unfold turn at h
  split at h
  next call r next hi =>
    split at h
    next =>
      rcases List.mem_or_eq_of_mem_set h with h | rfl
      · exact List.mem_map_of_mem h
      · exact List.mem_map.mpr ⟨_, List.mem_of_getElem? hi, rfl⟩
    next => exact List.mem_map_of_mem h
  next => exact List.mem_map_of_mem h

/-- All calls were there before or began. -/
theorem mem_play {moves : List Move} {client : Client} (h : client ∈ (s.play f moves).clients) :
    client.call ∈ s.clients.map Client.call ∨ .start client.call ∈ moves := by
  induction moves generalizing s with
  | nil => exact .inl (List.mem_map_of_mem h)
  | cons move moves ih =>
      rcases ih h with h | h
      · obtain ⟨client', hclient', heq⟩ := List.mem_map.mp h
        rw [← heq]
        cases move with
        | start c =>
            rcases List.mem_append.mp hclient' with h | h
            · exact .inl (List.mem_map_of_mem h)
            · rw [List.mem_singleton.mp h]
              exact .inr List.mem_cons_self
        | turn i => exact .inl (mem_turn hclient')
      · exact .inr (List.mem_cons_of_mem _ h)

section Turn

variable {i : Nat} {c : Call} {r : Request} {next : r.Reply → Program files (Reply c)}

theorem turn_eq (hi : s.clients[i]? = some ⟨c, .ask r next⟩) {x : r.Reply} {opened : Opened}
    {owner : Nat → Option Nat} (hstep : step i r s.opened s.owner = some (x, opened, owner)) :
    s.turn i = ⟨opened, owner, s.clients.set i ⟨c, next x⟩, s.log ++ answered i (next x)⟩ := by
  rw [turn, hi]
  dsimp only
  rw [hstep]

theorem turn_of_step_eq_none (hi : s.clients[i]? = some ⟨c, .ask r next⟩)
    (hstep : step i r s.opened s.owner = none) : s.turn i = s := by
  rw [turn, hi]
  dsimp only
  rw [hstep]

theorem turn_of_done {x : Reply c} (hi : s.clients[i]? = some ⟨c, .done x⟩) : s.turn i = s := by
  rw [turn, hi]

theorem turn_of_none (hi : s.clients[i]? = none) : s.turn i = s := by
  rw [turn, hi]

end Turn

end Scene

namespace Ordered

theorem start (h : Ordered m₀ s order m) {c : Call} (hc : c.IsSingle) :
    Ordered m₀ (s.move f (.start c)) order m where
  replies := h.replies
  contents := h.contents
  once := h.once
  begun p hp := by
    obtain ⟨rest, hrest⟩ := h.begun p hp
    exact ⟨rest, getElem?_push hrest _⟩
  answered i := by
    have hlog : .answered i ∈ (s.move f (.start c)).log ↔ .answered i ∈ s.log := by
      simp [Scene.move]
    rw [hlog, h.answered]
    refine exists_congr fun c' => exists_congr fun x => ⟨fun hi => ?_, fun hi => ?_⟩
    · exact getElem?_push hi _
    · rcases Scene.clients_start_cases hi with hi | ⟨-, heq⟩
      · exact hi
      · obtain ⟨rfl, hrest⟩ := Client.mk.inj heq
        exact absurd (eq_of_heq hrest).symm (perform_ne_done hc x)
  realTime := h.realTime.imp_of_mem fun {p q} hp _ hpq hprecedes => by
    obtain ⟨rest, hrest⟩ := h.begun p hp
    have hne : p.1 ≠ s.clients.length := Nat.ne_of_lt (List.getElem?_eq_some_iff.mp hrest).1
    exact hpq (pair_sublist_left hprecedes (by simpa using hne))

section Turn

variable (h : Ordered m₀ s order m) {i : Nat} {c : Call} {r : Request}
  {next : r.Reply → Program files (Reply c)} (hi : s.clients[i]? = some ⟨c, .ask r next⟩)

include h hi

theorem not_answered : .answered i ∉ s.log := fun hmem => by
  obtain ⟨c', x, hc⟩ := (h.answered i).mp hmem
  cases hi.symm.trans hc

/-- A client takes a turn. -/
theorem turn (opened : Opened) (owner : Nat → Option Nat) (p : Program files (Reply c)) :
    Ordered m₀ ⟨opened, owner, s.clients.set i ⟨c, p⟩, s.log ++ Scene.answered i p⟩ order m where
  replies := h.replies
  contents := h.contents
  once := h.once
  begun := by
    rintro ⟨j, c', x⟩ hq
    obtain ⟨rest, hrest⟩ := h.begun _ hq
    by_cases hj : i = j
    · subst hj
      cases hrest.symm.trans hi
      exact ⟨p, List.getElem?_set_self (List.getElem?_eq_some_iff.mp hi).1⟩
    · exact ⟨rest, (List.getElem?_set_ne hj).trans hrest⟩
  answered j := by
    rw [List.mem_append, h.answered]
    by_cases hj : i = j
    · subst hj
      rw [List.getElem?_set_self (List.getElem?_eq_some_iff.mp hi).1, hi]
      cases p <;> simp [Scene.answered]
    · have hnot : .answered j ∉ Scene.answered i p := by
        cases p <;> simp [Scene.answered, Ne.symm hj]
      rw [List.getElem?_set_ne hj, or_iff_left hnot]
  realTime := h.realTime.imp fun hpq hprecedes => by
    refine hpq (pair_sublist_left hprecedes fun hmem => ?_)
    cases p with
    | done => cases List.mem_singleton.mp hmem
    | ask | abandon => cases hmem

/-- A call that has no place in the order takes the last one. -/
theorem settle (hnew : order.Places i c none) :
    Ordered m₀ s (order ++ [(i, ⟨c, (Memory.answer c m).1⟩)]) (Memory.answer c m).2 where
  replies := by
    rw [List.map_append, Order.calls_append, Memory.replies_append, h.replies, h.contents]
    rfl
  contents := by
    rw [Order.calls_append, Memory.after_append, h.contents]
    rfl
  once := by
    rw [List.map_append]
    refine List.nodup_append.mpr ⟨h.once, List.nodup_singleton _, fun j hj k hk => ?_⟩
    obtain ⟨p, hp, rfl⟩ := List.mem_map.mp hj
    rw [List.mem_singleton.mp hk]
    exact hnew p hp
  begun p hp := by
    rcases List.mem_append.mp hp with hp | hp
    · exact h.begun p hp
    · rw [List.mem_singleton.mp hp]
      exact ⟨_, hi⟩
  answered := h.answered
  realTime := by
    refine List.pairwise_append.mpr ⟨h.realTime, List.pairwise_singleton _ _, fun p _ q hq => ?_⟩
    rw [List.mem_singleton.mp hq]
    exact fun hprecedes => h.not_answered hi (hprecedes.subset List.mem_cons_self)

end Turn

end Ordered

namespace Seats

theorem start (h : Seats f s order m) (ho : Ordered m₀ s order m) {c : Call} (hc : c.IsSingle) :
    Seats f (s.move f (.start c)) order m where
  mirrors := h.mirrors
  stands i c' p hi := by
    rcases Scene.clients_start_cases hi with hi | ⟨rfl, heq⟩
    · exact h.stands i c' p hi
    · cases heq
      refine ⟨none, none, .perform _ _ hc, fun stripe => ⟨fun e => ?_, nofun⟩, fun q hq e => ?_⟩
      · exact absurd (h.held _ _ e) (Nat.lt_irrefl _)
      · obtain ⟨rest, hrest⟩ := ho.begun q hq
        exact absurd e (Nat.ne_of_lt (List.getElem?_eq_some_iff.mp hrest).1)
  held stripe i e := by
    rw [Scene.move, List.length_append]
    exact Nat.lt_add_right _ (h.held stripe i e)

section Turn

variable (h : Seats f s order m) {i : Nat} {c : Call} {r : Request}
  {next : r.Reply → Program files (Reply c)} (hi : s.clients[i]? = some ⟨c, .ask r next⟩)
  {x : r.Reply} {opened : Opened} {owner : Nat → Option Nat}
  (hstep : Scene.step i r s.opened s.owner = some (x, opened, owner))

include h hi hstep

/-- A client takes a turn after which the others still stand where they stood. -/
theorem turn (hm : Mirrors opened m') {lock : Option Nat} {settled : Option (Reply c)}
    (hstands : Stands f opened.disk m' c (next x) lock settled) (howns : Owns owner i lock)
    (hheld : ∀ stripe, owner stripe = s.owner stripe ∨ owner stripe = none ∨ owner stripe = some i)
    (hplaces : order'.Places i c settled)
    (hothers : ∀ j ≠ i, ∀ (c' : Call) (p : Program files (Reply c')) lock settled,
      Stands f s.opened.disk m c' p lock settled → Owns s.owner j lock → order.Places j c' settled →
      Stands f opened.disk m' c' p lock settled ∧ Owns owner j lock ∧ order'.Places j c' settled) :
    Seats f (s.turn i) order' m' := by
  rw [Scene.turn_eq hi hstep]
  have hlt : i < s.clients.length := (List.getElem?_eq_some_iff.mp hi).1
  refine ⟨hm, fun j c' p hj => ?_, fun stripe j e => ?_⟩
  · by_cases hij : i = j
    · subst hij
      rw [List.getElem?_set_self hlt] at hj
      cases hj
      exact ⟨lock, settled, hstands, howns, hplaces⟩
    · rw [List.getElem?_set_ne hij] at hj
      obtain ⟨lock', settled', hstands', howns', hplaces'⟩ := h.stands j c' p hj
      exact ⟨lock', settled', hothers j (Ne.symm hij) c' p lock' settled' hstands' howns' hplaces'⟩
  · rw [List.length_set]
    rcases hheld stripe with hsame | hnone | hmine
    · exact h.held stripe j (hsame ▸ e)
    · exact nomatch hnone.symm.trans e
    · exact Option.some.inj (hmine.symm.trans e) ▸ hlt

end Turn

end Seats

/-- What another client holds a lock of is none of the keys that a turn may change. -/
theorem Stands.of_covers {opened opened' : Opened} {owner : Nat → Option Nat} {i j : Nat}
    {lock lock' : Option Nat} (hij : j ≠ i) (howns : Owns owner i lock)
    (hcovers : Covers f lock opened m opened' m') {c : Call} {p : Program files (Reply c)}
    {settled : Option (Reply c)} (h : Stands f opened.disk m c p lock' settled)
    (howns' : Owns owner j lock') : Stands f opened'.disk m' c p lock' settled := by
  refine h.frame fun key hlock' => hcovers key fun hlock => hij ?_
  exact Option.some.inj (((howns' _).mpr hlock').symm.trans ((howns _).mpr hlock))

theorem update_eq_or (owner : Nat → Option Nat) (stripe : Nat) {holder : Option Nat} {i : Nat}
    (hholder : holder = none ∨ holder = some i) (stripe' : Nat) :
    Function.update owner stripe holder stripe' = owner stripe' ∨
      Function.update owner stripe holder stripe' = none ∨
      Function.update owner stripe holder stripe' = some i := by
  by_cases hstripe : stripe' = stripe
  · subst hstripe
    rw [Function.update_self]
    exact .inr hholder
  · exact .inl (Function.update_of_ne hstripe ..)

theorem exists_order_turn (h : Seats f s order m) (ho : Ordered m₀ s order m) (i : Nat) :
    ∃ order' m', Seats f (s.turn i) order' m' ∧ Ordered m₀ (s.turn i) order' m' := by
  cases hi : s.clients[i]? with
  | none =>
      rw [Scene.turn_of_none hi]
      exact ⟨order, m, h, ho⟩
  | some client =>
      obtain ⟨c, p⟩ := client
      obtain ⟨lock, settled, hstands, howns, hplaces⟩ := h.stands i c p hi
      rcases hstands.turned h.mirrors with ⟨x, rfl, -, -⟩ | ⟨r, next, rfl, hturned⟩
      · rw [Scene.turn_of_done hi]
        exact ⟨order, m, h, ho⟩
      · cases hturned with
        | @locks key next hnext =>
            by_cases hfree : s.owner (f.stripe key) = none
            · have hstep : Scene.step i (.lock (f.stripe key)) s.opened s.owner =
                  some ((), s.opened, Function.update s.owner (f.stripe key) (some i)) :=
                if_pos hfree
              refine ⟨order, m, h.turn hi hstep h.mirrors hnext (howns.take _)
                (update_eq_or _ _ (.inr rfl)) hplaces ?_, ?_⟩
              · intro j hj c' p lock' settled' hstands' howns' hplaces'
                refine ⟨hstands', howns'.update (fun hlock => ?_) fun e => hj ?_, hplaces'⟩
                · exact nomatch hfree.symm.trans ((howns' _).mpr hlock)
                · exact (Option.some.inj e).symm
              · rw [Scene.turn_eq hi hstep]
                exact ho.turn hi _ _ _
            · rw [Scene.turn_of_step_eq_none hi (if_neg hfree)]
              exact ⟨order, m, h, ho⟩
        | unlocks key x =>
            have hstep : Scene.step i (.unlock (f.stripe key)) s.opened s.owner =
              some ((), s.opened, Function.update s.owner (f.stripe key) none) := rfl
            refine ⟨order, m, h.turn hi hstep h.mirrors (.finished x) howns.give
              (update_eq_or _ _ (.inl rfl)) hplaces ?_, ?_⟩
            · intro j hj c' p lock' settled' hstands' howns' hplaces'
              refine ⟨hstands', howns'.update (fun hlock => hj ?_) nofun, hplaces'⟩
              exact Option.some.inj (((howns' _).mpr hlock).symm.trans ((howns _).mpr rfl))
            · rw [Scene.turn_eq hi hstep]
              exact ho.turn hi _ _ _
        | moves hstep hs' hcovers hnext =>
            refine ⟨order, m, h.turn hi (hstep i s.owner) hs' hnext howns (fun _ => .inl rfl) hplaces
              ?_, ?_⟩
            · intro j hj c' p lock' settled' hstands' howns' hplaces'
              exact ⟨hstands'.of_covers hj howns hcovers howns', howns', hplaces'⟩
            · rw [Scene.turn_eq hi (hstep i s.owner)]
              exact ho.turn hi _ _ _
        | settles hstep hs' hcovers hnext =>
            refine ⟨_, _, h.turn hi (hstep i s.owner) hs' hnext howns (fun _ => .inl rfl)
              (List.mem_append_right order (List.mem_singleton_self _)) ?_, ?_⟩
            · intro j hj c' p lock' settled' hstands' howns' hplaces'
              exact ⟨hstands'.of_covers hj howns hcovers howns', howns', hplaces'.append hj _⟩
            · rw [Scene.turn_eq hi (hstep i s.owner)]
              exact (ho.settle hi hplaces).turn hi _ _ _

theorem exists_order_play {moves : List Move} (hmoves : ∀ c, .start c ∈ moves → c.IsSingle)
    (h : Seats f s order m) (ho : Ordered m₀ s order m) :
    ∃ order' m', Seats f (s.play f moves) order' m' ∧ Ordered m₀ (s.play f moves) order' m' := by
  induction moves generalizing s order m with
  | nil => exact ⟨order, m, h, ho⟩
  | cons move moves ih =>
      have hrest : ∀ c, .start c ∈ moves → c.IsSingle := fun c hc =>
        hmoves c (List.mem_cons_of_mem _ hc)
      cases move with
      | start c =>
          have hc := hmoves c List.mem_cons_self
          exact ih hrest (h.start ho hc) (ho.start hc)
      | turn i =>
          obtain ⟨order', m', h', ho'⟩ := exists_order_turn h ho i
          exact ih hrest h' ho'

theorem Seats.canTurn_of_owner (h : Seats f s order m) {stripe j : Nat}
    (howner : s.owner stripe = some j) : s.CanTurn j := by
  obtain ⟨⟨c, p⟩, hj⟩ : ∃ client, s.clients[j]? = some client :=
    ⟨_, List.getElem?_eq_getElem (h.held _ _ howner)⟩
  obtain ⟨lock, settled, hstands, howns, -⟩ := h.stands j c p hj
  obtain rfl := (howns stripe).mp howner
  rcases hstands.turned h.mirrors with ⟨x, -, hlock, -⟩ | ⟨r, next, rfl, hturned⟩
  · cases hlock
  · exact ⟨c, r, next, hj, hturned.isSome_step ..⟩

/-- Unless every client has its reply, nobody is in the way of one of them. -/
theorem Seats.exists_canTurn (h : Seats f s order m) :
    (∀ client ∈ s.clients, ∃ x, client.rest = .done x) ∨ ∃ i, s.CanTurn i := by
  refine or_iff_not_imp_right.mpr fun hnone client hclient => ?_
  obtain ⟨i, hi⟩ := List.getElem?_of_mem hclient
  obtain ⟨lock, settled, hstands, howns, -⟩ := h.stands i client.call client.rest hi
  rcases hstands.turned h.mirrors with ⟨x, hx, -, -⟩ | ⟨r, next, hask, hturned⟩
  · exact ⟨x, hx⟩
  refine absurd ?_ hnone
  cases lock with
  | some stripe => exact ⟨i, _, r, next, hask ▸ hi, hturned.isSome_step ..⟩
  | none =>
      cases hstep : Scene.step i r s.opened s.owner with
      | some => exact ⟨i, _, r, next, hask ▸ hi, hstep ▸ rfl⟩
      | none =>
          -- only a lock is ever waited for, and whoever holds it can get on
          cases hturned with
          | @locks key =>
              cases howner : s.owner (f.stripe key) with
              | none => exact nomatch hstep.symm.trans (if_pos howner)
              | some j => exact ⟨j, h.canTurn_of_owner howner⟩
          | moves hstep' => exact nomatch hstep.symm.trans (hstep' ..)
          | settles hstep' => exact nomatch hstep.symm.trans (hstep' ..)

theorem Seats.quiet {opened : Opened} (h : Mirrors opened m₀) :
    Seats f (Scene.quiet opened) [] m₀ :=
  ⟨h, nofun, nofun⟩

theorem Ordered.quiet (opened : Opened) : Ordered m₀ (Scene.quiet opened) [] m₀ where
  replies := rfl
  contents := rfl
  once := .nil
  begun := nofun
  answered _ := ⟨nofun, nofun⟩
  realTime := .nil

end FileStore

/-- A call that writes a key, if at all, only over one value, and with another value. -/
def Call.Swaps (key : String) (expected : Bytes) (c : Call) : Prop :=
  c.writes = true → c.subject = key → ∃ value, value ≠ expected ∧ c = .compareAndPut key expected value

def Succeeds (key : String) (expected : Bytes) (r : (c : Call) × Reply c) : Prop :=
  ∃ value, r = ⟨.compareAndPut key expected value, .ok true⟩

section Swaps

variable {key : String} {expected : Bytes}

theorem Call.Swaps.effect_eq {c : Call} (h : c.Swaps key expected) {held : Option Bytes}
    (hheld : held ≠ some expected) : c.effect key held = held := by
  cases c with
  | scan | get => rfl
  | put key' value =>
      refine if_neg fun e => ?_
      obtain ⟨_, -, hcall⟩ := h rfl e.symm
      cases hcall
  | compareAndPut key' expected' value =>
      refine if_neg fun ⟨e, hsame⟩ => ?_
      obtain ⟨_, -, hcall⟩ := h rfl e.symm
      cases hcall
      exact hheld hsame
  | delete key' =>
      refine if_neg fun e => ?_
      obtain ⟨_, -, hcall⟩ := h rfl e.symm
      cases hcall

theorem Memory.get?_of_succeeds {m : Memory} {value : Bytes}
    (h : (answer (.compareAndPut key expected value) m).1 = .ok true) :
    m.get? key = some expected := by
  by_contra hheld
  rw [answer, compareAndPut, if_neg hheld] at h
  cases h

/-- Once a key holds something else, nobody succeeds. -/
theorem Memory.not_succeeds {calls : List Call} (hcalls : ∀ c ∈ calls, c.Swaps key expected)
    {m : Memory} (hm : Table.Ascending m) (hheld : m.get? key ≠ some expected) :
    ∀ r ∈ replies calls m, ¬ Succeeds key expected r := by
  induction calls generalizing m with
  | nil => exact nofun
  | cons c calls ih =>
      intro r hr
      rcases List.mem_cons.mp hr with rfl | hr
      · rintro ⟨value, hsucceeds⟩
        obtain ⟨rfl, hreply⟩ := Sigma.mk.inj hsucceeds
        exact hheld (get?_of_succeeds (eq_of_heq hreply))
      · refine ih (fun c hc => hcalls c (List.mem_cons_of_mem _ hc)) (ascending_answer hm c) ?_ r hr
        rwa [get?_answer hm, (hcalls c List.mem_cons_self).effect_eq hheld]

/-- Of calls one after another that all expect the same value and would replace it, only one does. -/
theorem Memory.pairwise_not_succeeds {calls : List Call}
    (hcalls : ∀ c ∈ calls, c.Swaps key expected) {m : Memory} (hm : Table.Ascending m) :
    (replies calls m).Pairwise fun r r' => ¬ (Succeeds key expected r ∧ Succeeds key expected r') := by
  induction calls generalizing m with
  | nil => exact .nil
  | cons c calls ih =>
      have hrest : ∀ c ∈ calls, c.Swaps key expected := fun c hc =>
        hcalls c (List.mem_cons_of_mem _ hc)
      refine .cons (fun r hr => ?_) (ih hrest (ascending_answer hm c))
      rintro ⟨⟨value, hsucceeds⟩, hsucceeds'⟩
      obtain ⟨rfl, hreply⟩ := Sigma.mk.inj hsucceeds
      obtain ⟨_, hne, hcall⟩ := hcalls _ List.mem_cons_self rfl rfl
      cases hcall
      refine not_succeeds hrest (ascending_answer hm _) (fun hheld => hne ?_) r hr hsucceeds'
      rw [get?_answer hm, get?_of_succeeds (eq_of_heq hreply)] at hheld
      simpa [Call.effect] using hheld

end Swaps

namespace FileStore

/-- Calls of single keys that any number of clients make of one store, their steps interleaved in any
order. A store in memory gives the same replies and ends with the same contents when it takes the
calls in some order in which none stands before one that was answered before it began; while a client
waits for its reply, one of them can get on; and of clients who expect a key to hold the same value
and would replace it, while nobody else writes the key, one at most succeeds. -/
theorem linearizable (f : FileStore) {opened : Opened} (hm₀ : Mirrors opened m₀) {moves : List Move}
    (hmoves : ∀ c, .start c ∈ moves → c.IsSingle) :
    let s : Scene := Scene.play f moves (Scene.quiet opened)
    (∃ order m, Ordered m₀ s order m ∧ Mirrors s.opened m ∧
      ∀ (i : Nat) (c : Call) (x : Reply c), s.clients[i]? = some ⟨c, .done x⟩ → (i, ⟨c, x⟩) ∈ order) ∧
    ((∀ client ∈ s.clients, ∃ x, client.rest = .done x) ∨ ∃ i, s.CanTurn i) ∧
    ∀ (key : String) (expected : Bytes), (∀ c, .start c ∈ moves → c.Swaps key expected) →
      ∀ (i j : Nat) (value value' : Bytes),
        s.clients[i]? = some ⟨.compareAndPut key expected value, .done (.ok true)⟩ →
        s.clients[j]? = some ⟨.compareAndPut key expected value', .done (.ok true)⟩ → i = j := by
  intro s
  obtain ⟨order, m, hseats, ho⟩ := exists_order_play hmoves (.quiet hm₀) (.quiet opened)
  have hplaced : ∀ i c x, s.clients[i]? = some ⟨c, .done x⟩ → (i, ⟨c, x⟩) ∈ order := by
    intro i c x hi
    obtain ⟨lock, settled, hstands, -, hplaces⟩ := hseats.stands i c _ hi
    rcases hstands.turned hseats.mirrors with ⟨x', hx, -, rfl⟩ | ⟨r, next, hask, -⟩
    · cases hx
      exact hplaces
    · cases hask
  refine ⟨⟨order, m, ho, hseats.mirrors, hplaced⟩, hseats.exists_canTurn, ?_⟩
  intro key expected hswaps i j value value' hi hj
  have hcalls : ∀ c ∈ order.calls, c.Swaps key expected := by
    intro c hc
    obtain ⟨p, hp, rfl⟩ := List.mem_map.mp hc
    obtain ⟨rest, hrest⟩ := ho.begun p hp
    have hmem : (⟨p.2.1, rest⟩ : Client) ∈ s.clients := List.mem_of_getElem? hrest
    exact hswaps _ ((Scene.mem_play hmem).resolve_left nofun)
  have hpairs := Memory.pairwise_not_succeeds hcalls hm₀.ascending
  rw [← ho.replies, List.pairwise_map] at hpairs
  have : Std.Symm fun p q : Nat × ((c : Call) × Reply c) =>
    ¬ (Succeeds key expected p.2 ∧ Succeeds key expected q.2) := ⟨fun _ _ h h' => h h'.symm⟩
  by_contra hij
  exact hpairs.forall (hplaced _ _ _ hi) (hplaced _ _ _ hj) (fun e => hij (Prod.mk.inj e).1)
    ⟨⟨value, rfl⟩, ⟨value', rfl⟩⟩

/-- The number of temporary files wraps while two clients would replace a value and a third reads it. -/
theorem linearizable_wrapping :
    let f : FileStore := ⟨7, fun _ => 0⟩
    let m₀ : Memory := [("a", [0])]
    let moves : List Move := [.start (.compareAndPut "a" [0] [1]),
      .start (.compareAndPut "a" [0] [2]), .turn 1, .turn 0, .start (.get "a"), .turn 1, .turn 1,
      .turn 1, .turn 2, .turn 1, .turn 1, .turn 1, .turn 0, .turn 0, .turn 0]
    let s : Scene := Scene.play f moves
      (Scene.quiet ⟨⟨true, [(ofKey "a", .file [0])]⟩, 4294967295⟩)
    (∃ order m, Ordered m₀ s order m ∧ Mirrors s.opened m ∧
      ∀ (i : Nat) (c : Call) (x : Reply c), s.clients[i]? = some ⟨c, .done x⟩ → (i, ⟨c, x⟩) ∈ order) ∧
    ((∀ client ∈ s.clients, ∃ x, client.rest = .done x) ∨ ∃ i, s.CanTurn i) ∧
    ¬ (s.clients[0]? = some ⟨.compareAndPut "a" [0] [1], .done (.ok true)⟩ ∧
      s.clients[1]? = some ⟨.compareAndPut "a" [0] [2], .done (.ok true)⟩) := by
  intro f m₀ moves s
  have hkey : FitsName "a" := by
    unfold FitsName
    decide
  have hm₀ : Mirrors ⟨⟨true, [(ofKey "a", .file [0])]⟩, 4294967295⟩ m₀ :=
    ((mirrors_open true).set_file "a" [0]).of_disk_eq rfl
  have hstarts : ∀ c, .start c ∈ moves → c = .compareAndPut "a" [0] [1] ∨
      c = .compareAndPut "a" [0] [2] ∨ c = .get "a" := by
    intro c hc
    simpa [moves] using hc
  have hmoves : ∀ c, .start c ∈ moves → c.IsSingle := by
    intro c hc
    rcases hstarts c hc with rfl | rfl | rfl <;> exact hkey
  have hswaps : ∀ c, .start c ∈ moves → c.Swaps "a" [0] := by
    intro c hc
    rcases hstarts c hc with rfl | rfl | rfl
    · exact fun _ _ => ⟨[1], by decide, rfl⟩
    · exact fun _ _ => ⟨[2], by decide, rfl⟩
    · exact nofun
  obtain ⟨horder, hturn, hone⟩ := linearizable f hm₀ hmoves
  refine ⟨horder, hturn, fun ⟨h₀, h₁⟩ => ?_⟩
  exact absurd (hone "a" [0] hswaps 0 1 [1] [2] h₀ h₁) (by decide)

end FileStore

end Upkeep.Store
