import Upkeep.Proofs.Session.ExpiryOwner
import Upkeep.Proofs.Store.Memory

/-!
What a sweep writes. Between any two calls of a sweep other clients may put and delete whatever they
like, under whatever keys. Still a write of a sweep goes through only over the very bytes that it was
made from: these are a row, wherever it is filed, and all that changes is that the row has the expiry
of its own blob.
-/

namespace Upkeep

open Store

namespace Sweep

variable {ε : Type}

def Refreshed (decode : Decoder ε) (bs bs' : Bytes) : Prop :=
  ∃ r t, Record.decode bs = .ok r ∧ decode r.blob = .ok t ∧
    bs' = { r with expiresAt := some t : Record }.encode

/-- What a sweep asks: it looks, and it writes over a row nothing but that row refreshed. -/
def Asks (decode : Decoder ε) : Work.Request → Prop
  | .store (.scan ..) | .store (.get _) => True
  | .store (.compareAndPut _ expected value) => Refreshed decode expected value
  | _ => False

inductive Touches (decode : Decoder ε) : (r : Work.Request) → Memory → r.Reply → Memory → Prop
  | looks {c : Call} (h : c.writes = false) (m : Memory) (x : Reply c) :
      Touches decode (.store c) m x m
  /-- The row is gone or not what it was, or the store fails. -/
  | spares {key : String} {expected value : Bytes} (m : Memory)
      {x : Reply (.compareAndPut key expected value)} (h : x ≠ .ok true) :
      Touches decode (.store (.compareAndPut key expected value)) m x m
  | refreshes {key : String} {bs bs' : Bytes} {m : Memory} (held : m.get? key = some bs)
      (h : Refreshed decode bs bs') :
      Touches decode (.store (.compareAndPut key bs bs')) m (.ok true) (m.insert key bs')

def lasting? (bs : Bytes) : Option (Did × Blob × UInt64 × UInt64) :=
  (Record.decode bs).toOption.map fun r => (r.did, r.blob, r.createdAt, r.updatedAt)

structure Refreshes (decode : Decoder ε) (m m' : Memory) : Prop where
  keys : m'.keys = m.keys
  row : ∀ key, m'.get? key = m.get? key ∨
    ∃ bs bs', m.get? key = some bs ∧ m'.get? key = some bs' ∧ Refreshed decode bs bs'

variable {decode : Decoder ε}

theorem Refreshed.lasting?_eq {bs bs' : Bytes} (h : Refreshed decode bs bs') :
    lasting? bs' = lasting? bs := by
  obtain ⟨r, t, hdecode, -, hbs'⟩ := h
  rw [lasting?, lasting?, hbs', Record.decode_encode, hdecode]
  rfl

/-- A row that is refreshed twice is as after the first time. -/
theorem Refreshed.trans {bs bs' bs'' : Bytes} (h : Refreshed decode bs bs')
    (h' : Refreshed decode bs' bs'') : Refreshed decode bs bs'' := by
  obtain ⟨r, t, hdecode, hblob, hbs'⟩ := h
  obtain ⟨r', t', hdecode', hblob', hbs''⟩ := h'
  rw [hbs', Record.decode_encode] at hdecode'
  cases hdecode'
  cases hblob.symm.trans hblob'
  exact ⟨r, t, hdecode, hblob, hbs''⟩

namespace Refreshes

theorem refl (m : Memory) : Refreshes decode m m := ⟨rfl, fun _ => .inl rfl⟩

theorem trans {m m' m'' : Memory} (h : Refreshes decode m m') (h' : Refreshes decode m' m'') :
    Refreshes decode m m'' where
  keys := h'.keys.trans h.keys
  row key := by
    rcases h'.row key with hsame' | ⟨bs', bs'', hheld', hheld'', hrow'⟩
    · rw [hsame']
      exact h.row key
    · rcases h.row key with hsame | ⟨bs, _, hheld, hmid, hrow⟩
      · exact .inr ⟨bs', bs'', hsame ▸ hheld', hheld'', hrow'⟩
      · cases hmid.symm.trans hheld'
        exact .inr ⟨bs, bs'', hheld, hheld'', hrow.trans hrow'⟩

theorem ascending {m m' : Memory} (h : Refreshes decode m m') (hm : Table.Ascending m) :
    Table.Ascending m' := by
  rw [Table.ascending_iff_keys, h.keys]
  exact Table.ascending_iff_keys.mp hm

theorem lasting?_eq {m m' : Memory} (h : Refreshes decode m m') (key : String) :
    (m'.get? key).bind lasting? = (m.get? key).bind lasting? := by
  rcases h.row key with hsame | ⟨bs, bs', hheld, hheld', hrow⟩
  · rw [hsame]
  · rw [hheld, hheld', Option.bind_some, Option.bind_some, hrow.lasting?_eq]

theorem insert {m : Memory} (hm : Table.Ascending m) {key : String} {bs bs' : Bytes}
    (hheld : m.get? key = some bs) (hrow : Refreshed decode bs bs') :
    Refreshes decode m (Table.insert m key bs') where
  keys := Table.keys_insert_of_mem bs' hm (List.mem_map_of_mem (Table.mem_of_get? hheld))
  row key' := by
    by_cases hkey : key' = key
    · subst hkey
      exact .inr ⟨bs, bs', hheld, Table.get?_insert_self .., hrow⟩
    · exact .inl (Table.get?_insert_of_ne _ _ hkey)

end Refreshes

theorem Touches.refreshes_store {m m' : Memory} (hm : Table.Ascending m) {r : Work.Request}
    {x : r.Reply} (h : Touches decode r m x m') : Refreshes decode m m' := by
  cases h with
  | looks | spares => exact .refl m
  | refreshes hheld hrow => exact .insert hm hheld hrow

/-- A store that is shared, or fails, is touched as a sweep asks. -/
theorem Asks.touches {m m' : Memory} {r : Work.Request} (h : Asks decode r) {x : r.Reply}
    (hturn : Shared r m x m') : Touches decode r m x m' := by
  cases hturn with
  | elsewhere _ _ _ hr =>
      cases r with
      | store c => exact absurd rfl (hr c)
      | _ => exact h.elim
  | failed c _ e =>
      cases c with
      | scan | get => exact .looks rfl m _
      | compareAndPut key expected value => exact .spares m (by rintro ⟨⟩)
      | put | delete => exact h.elim
  | answered c =>
      cases c with
      | scan | get => exact .looks rfl m _
      | compareAndPut key expected value =>
          simp only [Memory.answer, Memory.compareAndPut]
          by_cases hheld : m.get? key = some expected
          · simp only [if_pos hheld]
            exact .refreshes hheld h
          · simp only [if_neg hheld]
            exact .spares m (by rintro ⟨⟩)
      | put | delete => exact h.elim

theorem pass_asks (decode : Decoder ε) (pageSize budget : Nat) :
    (pass decode pageSize budget).KeepsOk (fun _ _ => True) (Asks decode) fun _ => True :=
  pass_keepsOk (fun _ => trivial) (fun _ _ _ _ _ => trivial)
    (fun _ _ t ht => Rows.setExpiry_keepsOk trivial fun _ r _ hdecode hb =>
      ⟨r, t, hdecode, hb ▸ ht, rfl⟩) budget

/-- Those who share a store: sweeps, each with what decodes its expiries, and others, who do
anything. -/
inductive Sharer : Option (Decoder ε) → Work Unit → Prop
  | sweep (decode : Decoder ε) (pageSize budget : Nat) :
      Sharer (some decode) ((pass decode pageSize budget).bind fun _ => .done ())
  | other (p : Work Unit) : Sharer none p

private theorem Sharer.asks {k : Option (Decoder ε)} {p : Work Unit} (h : Sharer k p) :
    p.Keeps (fun _ _ => True) (fun r => ∀ decode ∈ k, Asks decode r) fun _ => True := by
  cases h with
  | sweep decode pageSize budget =>
      have hpass : (pass decode pageSize budget).Keeps (fun _ _ => True)
          (fun r => ∀ decode' ∈ some decode, Asks decode' r) fun _ => True := by
        refine ((pass_asks decode pageSize budget).mono_safe fun r hr decode' hd => ?_).mono
          fun _ _ => trivial
        cases hd
        exact hr
      exact hpass.bind fun _ _ => trivial
  | other p => exact p.keeps_true.mono_safe fun _ _ _ hd => nomatch hd

/-- Whatever a store holds at first, and whatever others do between the calls of any number of
sweeps: a sweep writes a row only where it stands, with its expiry changed to that of its blob. No
key comes or goes by it, and all else that rows hold is as it was right before. -/
theorem touches_only_expiry {m : Memory} (hm : Table.Ascending m)
    {P : Pool (Option (Decoder ε)) work Unit Memory}
    (h : Pool.Reachable (fun _ => Shared) Sharer ⟨m, []⟩ P)
    (before after : List (Option (Decoder ε) × Work Unit)) {decode : Decoder ε} {r : Work.Request}
    {next : r.Reply → Work Unit}
    (hsweep : P.running = before ++ (some decode, Program.ask r next) :: after) {x : r.Reply}
    {m' : Memory} (hturn : Shared r P.state x m') :
    Touches decode r P.state x m' ∧ m'.keys = P.state.keys ∧
      ∀ key, (m'.get? key).bind lasting? = (P.state.get? key).bind lasting? := by
  obtain ⟨hasc, hasks⟩ : Table.Ascending P.state ∧ _ :=
    h.keepsEach (fun _ _ _ => True) (fun k r => ∀ decode ∈ k, Asks decode r) Table.Ascending
      (fun _ r m x m' hm _ hturn => ⟨trivial, hturn.ascending hm⟩)
      (fun _ _ hp => hp.asks) hm
  have hmoves := hasks (some decode, .ask r next)
    (hsweep ▸ List.mem_append_right _ List.mem_cons_self)
  have htouches := (hmoves.1 decode rfl).touches hturn
  have hrefreshes := htouches.refreshes_store hasc
  exact ⟨htouches, hrefreshes.keys, hrefreshes.lasting?_eq⟩

/-- Another client writes the row again between the page and the write of a sweep, which then keeps
the times that it did not read. -/
theorem touches_only_expiry_race :
    let decode : Decoder Unit := fun _ => .ok 7
    let d : Did := ⟨"did:a:b", by decide⟩
    let read : Bytes := Utf8.encode "[\"did:a:b\",\"\",1,2]"
    let written : Bytes := Utf8.encode "[\"did:a:b\",\"\",5,6]"
    let refreshed : Bytes := Record.encode ⟨d, ⟨""⟩, 5, 6, some 7⟩
    let m : Memory := Table.insert [(Rows.key d, read)] (Rows.key d) written
    let write : Work.Request := .store (.compareAndPut (Rows.key d) written refreshed)
    ∃ next : write.Reply → Work Unit,
      Pool.Reachable (fun _ => Shared) Sharer ⟨[(Rows.key d, read)], []⟩
        ⟨m, [(some decode, .ask write next), (none, .done ())]⟩ ∧
      Touches decode write m (.ok true) (m.insert (Rows.key d) refreshed) ∧
      (m.insert (Rows.key d) refreshed).keys = m.keys ∧
      ∀ key, ((m.insert (Rows.key d) refreshed).get? key).bind lasting? = (m.get? key).bind lasting? := by
  intro decode d read written refreshed m write
  have h1 : Pool.Reachable (fun _ => Shared) Sharer ⟨[(Rows.key d, read)], []⟩
      ⟨[(Rows.key d, read)], [(some decode, (pass decode 1 2).bind fun _ => .done ())]⟩ :=
    .step .refl (.start (.sweep decode 1 2))
  have h2 := h1.step (.start (.other ((Work.put (Rows.key d) written).bind fun _ => .done ())))
  have hscan : Shared (.store (.scan Rows.start none 1)) [(Rows.key d, read)]
      (.ok [Rows.key d]) [(Rows.key d, read)] := by
    have hkeys : Memory.scan [(Rows.key d, read)] Rows.start none 1 = [Rows.key d] := by decide
    exact hkeys ▸ Shared.answered (.scan Rows.start none 1) [(Rows.key d, read)]
  have h3 := h2.step (.move [] _ hscan)
  have h4 := h3.step (.move [] _ (Shared.answered (.get (Rows.key d)) _))
  have h5 := h4.step (.move [_] [] (Shared.answered (.put (Rows.key d) written) _))
  have hget : Shared (.store (.get (Rows.key d))) m (.ok (some written)) m := by
    have hheld : m.get? (Rows.key d) = some written := Table.get?_insert_self _ _ _
    exact hheld ▸ Shared.answered (.get (Rows.key d)) m
  have h6 := h5.step (.move [] _ hget)
  have hcall : Shared write m (.ok true) (Table.insert m (Rows.key d) refreshed) := by
    have hheld : m.get? (Rows.key d) = some written := Table.get?_insert_self _ _ _
    have hanswer : Memory.answer (.compareAndPut (Rows.key d) written refreshed) m =
        (.ok true, Table.insert m (Rows.key d) refreshed) :=
      Memory.answer_compareAndPut hheld refreshed
    have hturn := Shared.answered (.compareAndPut (Rows.key d) written refreshed) m
    rw [hanswer] at hturn
    exact hturn
  exact ⟨_, h6, touches_only_expiry (Table.ascending_iff_keys.mpr (List.pairwise_singleton _ _)) h6
    [] _ rfl hcall⟩

end Sweep

end Upkeep
