import Upkeep.Work

/-!
Session rows in a store, one under `session:<did>` for each identifier.
-/

namespace Upkeep.Rows

/-- What the keys of all rows start with. -/
def start : String := "session:"

def key (d : Did) : String := start ++ d.text

/-- The row of an identifier; one that cannot be read is a failure. -/
def get (d : Did) : Errand (Option Record) :=
  (Work.get (key d)).onSuccess fun
    | none => Work.ok none
    | some bs =>
      match Record.decode bs with
      | .ok r => Work.ok (some r)
      | .error e => Work.fail (.json e)

/-- The row that a blob written at `now` makes of what was there before. A row keeps the time of
its first writing, and its expiry as long as its blob stays the same. -/
def renew (d : Did) (b : Blob) (now : UInt64) : Option Record → Record
  | some prior => ⟨d, b, prior.createdAt, now, if prior.blob = b then prior.expiresAt else none⟩
  | none => ⟨d, b, now, now, none⟩

/-- Writes a blob. A row that cannot be read counts as none. -/
def put (d : Did) (b : Blob) : Errand Record :=
  Work.now.bind fun now =>
    (Work.get (key d)).onSuccess fun current =>
      let record := renew d b now (current.bind fun bs => (Record.decode bs).toOption)
      (Work.put (key d) record.encode).onSuccess fun () => Work.ok record

/-- Writes the expiry that was decoded from a blob, unless the row holds another blob by now;
answers whether it was written. -/
def setExpiry (d : Did) (decoded : Blob) (expiry : UInt64) : Errand Bool :=
  (Work.get (key d)).onSuccess fun
    | none => Work.ok false
    | some current =>
      match Record.decode current with
      | .error e => Work.fail (.json e)
      | .ok r =>
        if r.blob = decoded then
          Work.compareAndPut (key d) current { r with expiresAt := some expiry : Record }.encode
        else Work.ok false

def delete (d : Did) : Errand Bool := Work.delete (key d)

/-- Some rows in the order of their keys. -/
structure Page where
  records : List Record
  /-- The keys of rows that cannot be read, and why. -/
  corrupt : List (String × Json.Error)
  /-- Where the next page starts; none after the last one. -/
  next : Option String

/-- Reads the rows of the keys given, those that are gone left out. -/
def read : List String → Errand (List Record × List (String × Json.Error))
  | [] => Work.ok ([], [])
  | k :: ks =>
    (Work.get k).onSuccess fun
      | none => read ks
      | some bs =>
        (read ks).onSuccess fun (records, corrupt) =>
          match Record.decode bs with
          | .ok r => Work.ok (r :: records, corrupt)
          | .error e => Work.ok (records, (k, e) :: corrupt)

/-- Up to `limit` rows that come after a key. -/
def page (after : Option String) (limit : Nat) : Errand Page :=
  let limit := max limit 1
  (Work.scan start after limit).onSuccess fun keys =>
    (read keys).onSuccess fun (records, corrupt) =>
      Work.ok ⟨records, corrupt, if keys.length < limit then none else keys.getLast?⟩

end Upkeep.Rows
