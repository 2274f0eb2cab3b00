import Holdfast.NameSet
import Holdfast.Store

/-!
# The full-backup schedule

A queue with one entry per package, ordered by the time at which the package is due. A
package that was never backed up is due at once.

* `Schedule.enqueue` enters a package after a backup, `Schedule.defer` at a given time;
* `Schedule.dequeue` and `Schedule.dequeueHead` take entries out;
* `Schedule.encode` and `Schedule.decode` are the file format;
* `Schedule.load` reconciles a file with the packages that are eligible now.

Times are milliseconds since the epoch as signed 64-bit words; due times stop at the end
of the range.
-/

namespace Holdfast

/-- A package and when it is due. -/
structure ScheduleEntry where
  package : String
  /-- When the package was last backed up, zero for never. -/
  lastBackup : Int
  dueAt : Int
  deriving DecidableEq, Repr

/-- The queue of packages due for a full backup. -/
structure Schedule where
  /-- Time between two backups of one package. -/
  interval : Int
  entries : List ScheduleEntry := []
  deriving DecidableEq, Repr

namespace Schedule

/-- An empty queue. -/
def new (interval : Nat) : Schedule := { interval := min interval maxI64 }

/-- When a package backed up at `lastBackup` is due again. -/
def dueFor (q : Schedule) (lastBackup : Int) : Int :=
  if lastBackup ≤ 0 then 0 else satAdd lastBackup q.interval

/-- The entry of a package backed up at `lastBackup`. -/
def entryFor (q : Schedule) (package : String) (lastBackup : Int) : ScheduleEntry :=
  ⟨package, lastBackup, q.dueFor lastBackup⟩

/-- Insert an entry after the last one that is due no later. -/
def insertOrdered (entry : ScheduleEntry) (entries : List ScheduleEntry) : List ScheduleEntry :=
  let later := entries.reverse.takeWhile (fun e => entry.dueAt < e.dueAt)
  let earlier := entries.reverse.dropWhile (fun e => entry.dueAt < e.dueAt)
  earlier.reverse ++ entry :: later.reverse

/-- Keep the first pair of each package. -/
def firstPairs (seen : List String) : List (String × Int) → List (String × Int)
  | [] => []
  | (package, lastBackup) :: rest =>
    if seen.contains package then firstPairs seen rest
    else (package, lastBackup) :: firstPairs (package :: seen) rest

/-- The queue of several packages, ordered by due time and, among equals, as listed. Of
several pairs for one package the first counts. -/
def ofPairs (interval : Nat) (pairs : List (String × Int)) : Schedule :=
  let q := new interval
  let entries := (firstPairs [] pairs).map fun pair => q.entryFor pair.1 pair.2
  { q with entries := entries.foldl (fun queue entry => insertOrdered entry queue) [] }

/-- The queue without a package. -/
def dequeue (q : Schedule) (package : String) : Schedule :=
  { q with entries := q.entries.eraseP (·.package == package) }

/-- The entry of a package. -/
def get? (q : Schedule) (package : String) : Option ScheduleEntry :=
  q.entries.find? (·.package == package)

/-- Whether a package is in the queue. -/
def contains (q : Schedule) (package : String) : Bool := (q.get? package).isSome

/-- Enter a package after a backup at `lastBackup`, in place of its earlier entry. -/
def enqueue (q : Schedule) (package : String) (lastBackup : Int) : Schedule :=
  let rest := q.dequeue package
  let entry := q.entryFor package lastBackup
  -- a package that was never backed up goes before all others
  if lastBackup ≤ 0 then { rest with entries := entry :: rest.entries }
  else { rest with entries := insertOrdered entry rest.entries }

/-- Enter a package for a given time, without touching its history. -/
def defer (q : Schedule) (package : String) (lastBackup dueAt : Int) : Schedule :=
  let rest := q.dequeue package
  { rest with entries := insertOrdered ⟨package, lastBackup, dueAt⟩ rest.entries }

/-- The entry due first. -/
def head? (q : Schedule) : Option ScheduleEntry := q.entries.head?

/-- The queue without its first entry. -/
def dequeueHead (q : Schedule) : Schedule := { q with entries := q.entries.tail }

/-- When the first entry is due. -/
def nextDue? (q : Schedule) : Option Int := q.head?.map (·.dueAt)

/-- The packages, in queue order. -/
def packages (q : Schedule) : List String := q.entries.map (·.package)

/-! ## File format -/

/-- Name of the file inside the state folder. -/
def fileName : String := "fb-schedule"

/-- The version of the file that is written and understood. -/
def version : Int := 1

/-- Packages and times of their last backups, one after the other. -/
def putPairs : List ScheduleEntry → Except Fault Bytes
  | [] => .ok []
  | entry :: rest => do
    let name ← Record.putText entry.package
    let others ← putPairs rest
    return name ++ Record.putInt64 entry.lastBackup ++ others

/-- The content of the schedule file. -/
def encode (q : Schedule) : Except Fault Bytes :=
  if q.entries.length < Nat.pow 2 31 then do
    let pairs ← putPairs q.entries
    return Record.putInt32 version ++ Record.putInt32 q.entries.length ++ pairs
  else .error (.tooMany "schedule too large")

/-- Read `count` packages and times. -/
def readPairs (r : Record.Reader) : Nat → Except Fault (List (String × Int))
  | 0 => .ok []
  | count + 1 =>
    match r.text with
    | (.error e, _) => .error e
    | (.ok package, r) =>
      match r.int64 with
      | (.error e, _) => .error e
      | (.ok lastBackup, r) =>
        match readPairs r count with
        | .error e => .error e
        | .ok rest => .ok ((package, lastBackup) :: rest)

/-- Read the content of a schedule file. Octets after the record are ignored. -/
def decode (bytes : Bytes) : Except Fault (List (String × Int)) :=
  let r : Record.Reader := ⟨fileName, bytes⟩
  match r.int32 with
  | (.error e, _) => .error e
  | (.ok found, r) =>
    if found ≠ version then .error (r.fault (.version found))
    else match r.int32 with
      | (.error e, _) => .error e
      | (.ok count, r) =>
        if count < 0 then .error (r.fault (.negativeCount count))
        else readPairs r count.toNat

/-- Write the queue to a file. -/
def save (q : Schedule) (d : Disk) (path : Path) : Except Fault Unit × Disk :=
  Store.replace d path q.encode

/-- The pairs of a file, if the file is there. -/
def readFile (d : Disk) (path : Path) : Except Fault (Option (List (String × Int))) :=
  match Store.read d path with
  | .error e => .error e
  | .ok none => .ok none
  | .ok (some bytes) => (decode bytes).map some

/-- The stored pairs of eligible packages, followed by the eligible packages that are not
stored, as never backed up. -/
def reconcile (stored : List (String × Int)) (eligible : List String) : List (String × Int) :=
  stored.filter (fun pair => eligible.contains pair.1) ++
    (eligible.filter (fun package => !(stored.map (·.1)).contains package)).map (·, 0)

/-- Whether the stored packages are exactly the eligible ones. -/
def isCurrent (stored : List (String × Int)) (eligible : List String) : Bool :=
  stored.all (fun pair => eligible.contains pair.1) &&
    eligible.all (fun package => (stored.map (·.1)).contains package)

/-- A queue read from a file. -/
structure Loaded where
  queue : Schedule
  /-- The queue differs from the file, which should be written anew. -/
  changed : Bool

/-- Read a file and reconcile it with the eligible packages. A file that cannot be read is
deleted. -/
def load (d : Disk) (path : Path) (interval : Nat) (eligible : List String) : Loaded × Disk :=
  match readFile d path with
  | .ok (some stored) =>
    (⟨ofPairs interval (reconcile stored eligible), !isCurrent stored eligible⟩, d)
  | .ok none => (⟨ofPairs interval (reconcile [] eligible), true⟩, d)
  | .error _ =>
    (⟨ofPairs interval (reconcile [] eligible), true⟩, (Store.remove d path).2)

end Schedule

end Holdfast
