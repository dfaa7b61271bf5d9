import Upkeep.Work

/-!
Walking through the keys with a common start, page by page. A page that is short is the last one;
a call that fails leaves the pager where it was.
-/

namespace Upkeep

structure Pager where
  start : String
  pageSize : Nat
  /-- The last key given so far. -/
  cursor : Option String
  finished : Bool
  deriving DecidableEq, Repr

namespace Pager

/-- A pager before its first page. No page size is below one. -/
def «at» (start : String) (pageSize : Nat) : Pager := ⟨start, max pageSize 1, none, false⟩

/-- The pager after a page. -/
def advance (p : Pager) (page : List String) : Pager :=
  { p with cursor := page.getLast?.or p.cursor, finished := decide (page.length < p.pageSize) }

/-- The next page, none after the last one. -/
def next (p : Pager) : Work (Except Failure (Option (List String)) × Pager) :=
  if p.finished then .done (.ok none, p)
  else
    (Work.scan p.start p.cursor p.pageSize).bind fun
      | .error e => .done (.error e, p)
      | .ok page => .done (.ok (if page.isEmpty then none else some page), p.advance page)

/-- All pages from here on, at most `budget` of them. -/
def walk : (budget : Nat) → Pager → Errand (List (List String))
  | 0, _ => .abandon
  | budget + 1, p =>
    p.next.bind fun
      | (.error e, _) => Work.fail e
      | (.ok none, _) => Work.ok []
      | (.ok (some page), p') => (walk budget p').onSuccess fun pages => Work.ok (page :: pages)

end Pager

end Upkeep
