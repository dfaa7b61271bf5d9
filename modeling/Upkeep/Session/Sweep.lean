import Upkeep.Session.Rows
import Upkeep.Token.Expiry

/-!
The expiry sweep: a pass over all session rows that writes the expiry of each blob into its row,
and the query for rows that expire soon. A row that cannot be read or decoded is reported and
hides no other.
-/

namespace Upkeep.Sweep

/-- Why a row was left as it is. -/
inductive Cause (ε : Type) where
  | unreadable (e : Json.Error)
  | undecodable (e : ε)
  | unwritten (f : Failure)

def Cause.message {ε : Type} (describe : ε → String) : Cause ε → String
  | .unreadable e => e.message
  | .undecodable e => describe e
  | .unwritten f => f.message

/-- What a pass did: rows seen, rows written, and the keys of rows that failed. -/
structure Report (ε : Type) where
  scanned : Nat
  updated : Nat
  failed : List (String × Cause ε)

namespace Report

variable {ε : Type}

def empty : Report ε := ⟨0, 0, []⟩

def addUpdated (r : Report ε) : Report ε := { r with updated := r.updated + 1 }

def addFailed (r : Report ε) (key : String) (c : Cause ε) : Report ε :=
  { r with failed := r.failed ++ [(key, c)] }

/-- Counts the rows of a page, and reports those that cannot be read. -/
def addPage (r : Report ε) (p : Rows.Page) : Report ε :=
  { r with
    scanned := r.scanned + (p.records.length + p.corrupt.length)
    failed := r.failed ++ p.corrupt.map fun (key, e) => (key, .unreadable e) }

end Report

variable {ε : Type}

/-- Brings the expiry of one row up to date. -/
def updateRow (decode : Decoder ε) (report : Report ε) (r : Record) : Work (Report ε) :=
  match decode r.blob with
  | .error e => .done (report.addFailed (Rows.key r.did) (.undecodable e))
  | .ok expiry =>
    if r.expiresAt = some expiry then .done report
    else
      (Rows.setExpiry r.did r.blob expiry).bind fun
        | .ok true => .done report.addUpdated
        | .ok false => .done report
        | .error f => .done (report.addFailed (Rows.key r.did) (.unwritten f))

def updateRows (decode : Decoder ε) (report : Report ε) : List Record → Work (Report ε)
  | [] => .done report
  | r :: rs => (updateRow decode report r).bind fun report => updateRows decode report rs

/-- The rest of a pass, after the key `cursor` and over at most `budget` pages. -/
def passFrom (decode : Decoder ε) (pageSize : Nat) :
    (budget : Nat) → Option String → Report ε → Errand (Report ε)
  | 0, _, _ => .abandon
  | budget + 1, cursor, report =>
    (Rows.page cursor pageSize).onSuccess fun page =>
      (updateRows decode (report.addPage page) page.records).bind fun report =>
        match page.next with
        | none => Work.ok report
        | some key => passFrom decode pageSize budget (some key) report

/-- One pass over all rows. -/
def pass (decode : Decoder ε) (pageSize budget : Nat) : Errand (Report ε) :=
  passFrom decode pageSize budget none .empty

/-- Whether a row has an expiry that is not after the horizon. -/
def expiresBy (horizon : UInt64) (r : Record) : Bool :=
  match r.expiresAt with
  | some t => decide (t ≤ horizon)
  | none => false

def expiringFrom (horizon : UInt64) (pageSize : Nat) :
    (budget : Nat) → Option String → Errand (List Did)
  | 0, _ => .abandon
  | budget + 1, cursor =>
    (Rows.page cursor pageSize).onSuccess fun page =>
      let due := (page.records.filter (expiresBy horizon)).map Record.did
      match page.next with
      | none => Work.ok due
      | some key => (expiringFrom horizon pageSize budget (some key)).onSuccess fun rest => Work.ok (due ++ rest)

/-- The identifiers of the rows whose expiry is at most `lookahead` seconds away. -/
def expiring (now lookahead : UInt64) (pageSize budget : Nat) : Errand (List Did) :=
  expiringFrom (saturatingAdd now lookahead) pageSize budget none

end Upkeep.Sweep
