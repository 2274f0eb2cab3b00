import Holdfast.Journal
import Holdfast.NameSet

/-!
# Pending packages

The packages that wait for the next key-value pass. Every package that is staged is also
written to a journal, so a crash cannot lose it.

* `Pending.record` stages a package that its caller may announce;
* `Pending.drain` hands everything to a pass and starts a new journal generation;
* `Pending.finish` closes a pass: unless it succeeded, its packages are staged again before
  its generation is deleted;
* `Pending.replay` stages what earlier runs left behind.

The current generation is made when the first package needs it.
-/

namespace Holdfast

/-- What a pass took from the pending set. -/
structure Drained where
  /-- The packages, in increasing order. -/
  packages : List String
  /-- The generation that lists them. -/
  journal : Option Journal
  deriving DecidableEq, Repr

/-- The packages waiting for the next key-value pass. -/
structure Pending where
  /-- Where the journals are. -/
  folder : Path
  packages : NameSet := .empty
  /-- The current generation. -/
  journal : Option Journal := none

namespace Pending

/-- Name of the journal folder inside the state folder. -/
def folderName : String := "pending"

/-- Write a package to the current generation, which is made if there is none. After a
failed write the next package gets a new generation. -/
def write (p : Pending) (package : String) (d : Disk) : Pending × Disk :=
  match p.journal with
  | some journal =>
    match journal.add package d with
    | (.ok (), d) => (p, d)
    | (.error _, d) => ({ p with journal := none }, d)
  | none =>
    match Journal.create d p.folder with
    | (.error _, d) => (p, d)
    | (.ok journal, d) =>
      match journal.add package d with
      | (.ok (), d) => ({ p with journal := some journal }, d)
      | (.error _, d) => (p, d)

/-- Stage a package; whether it was not staged before. -/
def stage (p : Pending) (package : String) (d : Disk) : Bool × Pending × Disk :=
  if package ∈ p.packages then (false, p, d)
  else
    let (p, d) := write { p with packages := p.packages.insert package } package d
    (true, p, d)

/-- Stage a package if it is one of those its caller may announce; whether it is new. -/
def record (p : Pending) (package : String) (targets : NameSet) (d : Disk) :
    Bool × Pending × Disk :=
  if package ∈ targets then p.stage package d else (false, p, d)

/-- Stage several packages. -/
def restage (p : Pending) (packages : List String) (d : Disk) : Pending × Disk :=
  match packages with
  | [] => (p, d)
  | package :: rest =>
    let (_, p, d) := p.stage package d
    p.restage rest d

/-- Hand every package and the current generation to a pass. -/
def drain (p : Pending) : Drained × Pending :=
  (⟨p.packages.toList, p.journal⟩, { p with packages := .empty, journal := none })

/-- Delete the generation of a pass. -/
def retire (pass : Drained) (d : Disk) : Disk :=
  match pass.journal with
  | some journal => (journal.delete d).2
  | none => d

/-- Close a pass. -/
def finish (p : Pending) (pass : Drained) (success : Bool) (d : Disk) : Pending × Disk :=
  let (p, d) := if success then (p, d) else p.restage pass.packages d
  -- only now is every package of the pass backed up or in a newer generation
  (p, retire pass d)

/-- Stage those of several packages that may be announced. -/
def recordAll (p : Pending) (packages : List String) (targets : NameSet) (d : Disk) :
    Pending × Disk :=
  match packages with
  | [] => (p, d)
  | package :: rest =>
    let (_, p, d) := p.record package targets d
    p.recordAll rest targets d

/-- Stage the packages of one leftover generation and delete it; whether it could be read. -/
def replayOne (p : Pending) (journal : Journal) (targets : NameSet) (d : Disk) :
    Bool × Pending × Disk :=
  match journal.packages d with
  | .error _ => (false, p, d)
  | .ok packages =>
    let (p, d) := p.recordAll packages targets d
    (true, p, (journal.delete d).2)

/-- Replay leftover generations one by one, counting those that could be read. The
generation that is current when its turn comes is left alone. -/
def replayEach (p : Pending) (journals : List Journal) (targets : NameSet) (d : Disk) :
    Nat × Pending × Disk :=
  match journals with
  | [] => (0, p, d)
  | journal :: rest =>
    if p.journal = some journal then p.replayEach rest targets d
    else
      let (readable, p, d) := p.replayOne journal targets d
      let (count, p, d) := p.replayEach rest targets d
      (if readable then count + 1 else count, p, d)

/-- Stage what earlier runs left behind; how many generations were replayed. -/
def replay (p : Pending) (targets : NameSet) (d : Disk) : Nat × Pending × Disk :=
  p.replayEach (Journal.list d p.folder) targets d

/-- Forget a package; whether it was pending. It stays in the journals. -/
def remove (p : Pending) (package : String) : Bool × Pending :=
  (p.packages.contains package, { p with packages := p.packages.erase package })

end Pending

end Holdfast
