import Mathlib.Data.Multiset.Filter
import Mathlib.Data.Multiset.Sort
import Mathlib.Data.String.Basic
import Upkeep.Proofs.Store.Shown

/-!
A scan of a directory against sorting. The entries come one by one in the order of the listing, and
no more keys are held than may be answered; what is answered is still what sorting all the keys and
taking the first would give, a key counted once for each name that stands for it.
-/

namespace Upkeep.Store.FileStore

/-- The keys that the entries of a directory stand for, those that start as asked and come after the
cursor. -/
def candidates (start : String) (after : Option String) (entries : Multiset Bytes) :
    Multiset String :=
  (entries.filterMap FileNames.key?).filter fun k => start.toList <+: k.toList ∧ ∀ a ∈ after, a < k

def held (start : String) (after : Option String) (limit : Nat) (listed : List Bytes) : List String :=
  (qualifying start after listed).foldl (Smallest.offer limit) []

theorem isAfter_iff {after : Option String} {key : String} :
    isAfter after key = true ↔ ∀ a ∈ after, a < key := by
  cases after <;> simp [isAfter]

theorem coe_qualifying (start : String) (after : Option String) (names : List Bytes) :
    (qualifying start after names : Multiset String) = candidates start after names := by
  rw [candidates, Multiset.filterMap_coe, Multiset.filter_coe, qualifying]
  refine congrArg _ (List.filter_congr fun k _ => ?_)
  rw [Bool.eq_iff_iff, Bool.and_eq_true, decide_eq_true_iff, startsWith_iff, isAfter_iff]

/-- The keys held at the end are the first of all that qualify. -/
theorem select_qualifying (start : String) (after : Option String) (limit : Nat)
    (names : List Bytes) : Smallest.select limit (qualifying start after names) =
      (candidates start after names).sort.take limit := by
  refine Smallest.select_eq ?_ (Multiset.pairwise_sort _ _)
  rw [← Multiset.coe_eq_coe, Multiset.sort_eq, coe_qualifying]

theorem length_held_le (start : String) (after : Option String) (limit : Nat) (listed : List Bytes) :
    (held start after limit listed).length ≤ limit := by
  obtain ⟨rest, h⟩ := (Smallest.Holds.nil limit).foldl (qualifying start after listed)
  exact h.length.trans_le (Nat.min_le_left ..)

/-- Whatever the entries of a directory and in whatever order they are listed, a scan answers the
first keys in the order of all that qualify, and at no point of the listing does it hold more keys
than it may answer. -/
theorem scan_takes_sorted {σ : Type} (start : String) (after : Option String) {limit : Nat}
    (hroom : hasRoom limit = true) (entries : Multiset Bytes) (answer : Program.Answers files σ)
    (s s' : σ) (names : List Bytes) (hnames : (names : Multiset Bytes) = entries)
    (hlist : answer .list s = (.ok names, s')) :
    ((scan start after limit).run answer s).1 =
        some (.ok ((candidates start after entries).sort.take limit)) ∧
      ((scan start after limit).run answer s).1 =
        some (.ok (held start after limit names).reverse) ∧
      ∀ listed, listed <+: names → (held start after limit listed).length ≤ limit := by
  subst hnames
  have hrun := run_scan_of_listed hlist start after hroom
  refine ⟨?_, ?_, fun listed _ => length_held_le start after limit listed⟩
  · rw [hrun, select_qualifying]
  · rw [hrun]
    rfl

/-- A key in two spellings, one at the cursor, one too many and a temporary file, listed backwards. -/
theorem scan_takes_sorted_respelled :
    let names := ["61", "6A", "6a", "6a.7.0.tmp", "6b"].map Utf8.encode
    let s : Opened := ⟨⟨true, names.map fun name => (name, .file [])⟩, 0⟩
    hasRoom 2 = true ∧ Files.answer List.reverse .list s = (.ok names.reverse, s) ∧
      ((scan "" (some "a") 2).run (Files.answer List.reverse) s).1 = some (.ok ["j", "j"]) ∧
      (candidates "" (some "a") names).sort.take 2 = ["j", "j"] := by
  intro names s
  have hroom : hasRoom 2 = true := by decide
  have hscan : ((scan "" (some "a") 2).run (Files.answer List.reverse) s).1 =
      some (.ok ["j", "j"]) := by decide +kernel
  obtain ⟨hsorted, -⟩ := scan_takes_sorted "" (some "a") hroom names (Files.answer List.reverse)
    s s names.reverse (Multiset.coe_reverse names) rfl
  exact ⟨hroom, rfl, hscan, Except.ok.inj (Option.some.inj (hsorted.symm.trans hscan))⟩

end Upkeep.Store.FileStore
