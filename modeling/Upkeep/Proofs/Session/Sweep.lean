import Upkeep.Proofs.Session.Asked
import Upkeep.Session.Sweep

/-!
What a sweep asks for. It scans and reads, and writes by `setExpiry` only, with expiries that the
blob decodes to: what keeps these to a rule keeps the whole pass to it.
-/

namespace Upkeep

variable {rely : (r : Work.Request) → r.Reply → Prop} {safe : Work.Request → Prop}

namespace Rows

private theorem read_keepsOk {keys : List String}
    (hget : ∀ key ∈ keys, safe (.store (.get key))) :
    (read keys).KeepsOk rely safe fun _ => True := by
  induction keys with
  | nil => exact Work.keepsOk_ok trivial
  | cons k ks ih =>
      have ih := ih fun key hkey => hget key (List.mem_cons_of_mem k hkey)
      refine (Work.keepsOk_call (hget k List.mem_cons_self)).onSuccess fun current _ => ?_
      cases current with
      | none => exact ih
      | some bs =>
          refine ih.onSuccess fun (records, corrupt) _ => ?_
          dsimp only
          cases Record.decode bs with
          | error e => exact Work.keepsOk_ok trivial
          | ok r => exact Work.keepsOk_ok trivial

/-- A page scans for rows, and reads the keys that it was told of. -/
theorem page_keepsOk {after : Option String} {limit : Nat}
    (hscan : safe (.store (.scan start after (max limit 1))))
    (hget : ∀ keys : List String, rely (.store (.scan start after (max limit 1))) (.ok keys) →
      ∀ key ∈ keys, safe (.store (.get key))) :
    (page after limit).KeepsOk rely safe fun _ => True :=
  (Work.keepsOk_call hscan).onSuccess fun keys hkeys =>
    (read_keepsOk (hget keys hkeys)).onSuccess fun _ _ => Work.keepsOk_ok trivial

end Rows

namespace Sweep

variable {ε : Type} {decode : Decoder ε} {pageSize : Nat}
  (hscan : ∀ after, safe (.store (.scan Rows.start after (max pageSize 1))))
  (hget : ∀ after (keys : List String),
    rely (.store (.scan Rows.start after (max pageSize 1))) (.ok keys) →
      ∀ key ∈ keys, safe (.store (.get key)))
  (hset : ∀ d b t, decode b = .ok t → (Rows.setExpiry d b t).KeepsOk rely safe fun _ => True)

include hset in
private theorem updateRow_keeps (report : Report ε) (r : Record) :
    (updateRow decode report r).Keeps rely safe fun _ => True := by
  unfold updateRow
  cases hdecode : decode r.blob with
  | error e => trivial
  | ok t =>
      dsimp only
      split
      next => trivial
      next =>
        refine (hset r.did r.blob t hdecode).bind fun x _ => ?_
        rcases x with f | ⟨_ | _⟩ <;> trivial

include hset in
private theorem updateRows_keeps (report : Report ε) (rs : List Record) :
    (updateRows decode report rs).Keeps rely safe fun _ => True := by
  induction rs generalizing report with
  | nil => trivial
  | cons r rs ih => exact (updateRow_keeps hset report r).bind fun report _ => ih report

include hscan hget hset in
private theorem passFrom_keepsOk (budget : Nat) (cursor : Option String) (report : Report ε) :
    (passFrom decode pageSize budget cursor report).KeepsOk rely safe fun _ => True := by
  induction budget generalizing cursor report with
  | zero => trivial
  | succ budget ih =>
      refine (Rows.page_keepsOk (hscan cursor) (hget cursor)).onSuccess fun page _ => ?_
      refine (updateRows_keeps hset (report.addPage page) page.records).bind fun report _ => ?_
      cases page.next with
      | none => exact fun _ _ => trivial
      | some key => exact ih (some key) report

include hscan hget hset in
/-- A pass keeps to every rule that its reads and its writes keep to. -/
theorem pass_keepsOk (budget : Nat) :
    (pass decode pageSize budget).KeepsOk rely safe fun _ => True :=
  passFrom_keepsOk hscan hget hset budget none .empty

omit decode

include hscan hget in
private theorem expiringFrom_keepsOk (horizon : UInt64) (budget : Nat) (cursor : Option String) :
    (expiringFrom horizon pageSize budget cursor).KeepsOk rely safe fun _ => True := by
  induction budget generalizing cursor with
  | zero => trivial
  | succ budget ih =>
      refine (Rows.page_keepsOk (hscan cursor) (hget cursor)).onSuccess fun page _ => ?_
      dsimp only
      cases page.next with
      | none => exact Work.keepsOk_ok trivial
      | some key => exact (ih (some key)).onSuccess fun _ _ => Work.keepsOk_ok trivial

include hscan hget in
theorem expiring_keepsOk (now lookahead : UInt64) (budget : Nat) :
    (expiring now lookahead pageSize budget).KeepsOk rely safe fun _ => True :=
  expiringFrom_keepsOk hscan hget _ budget none

end Sweep

end Upkeep
