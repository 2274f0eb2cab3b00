import Holdfast.Processed
import Holdfast.Proofs.Disk.Files
import Holdfast.Proofs.Record

/-!
# What reopening remembers

The journal of processed packages is used by recording packages and by opening it again. What
is recorded goes behind the octets that are already in the file, whatever they are.

- `Processed.Use`, `Processed.run`: a history of such uses in which every recording succeeds;
- `Processed.run_reopened`: **reopening loses nothing that the first opening read, and a file of
  whole records always reads as the set in memory**;
- `Processed.torn_record_hides_package`: behind a torn record the second half fails, since the
  torn record takes the beginning of the next one for its own end.
-/

namespace Holdfast

/-! ## Histories -/

namespace Processed

/-- A use of the journal. -/
inductive Use where
  | add (package : String)
  | reopen
  deriving DecidableEq, Repr

/-- The journal and the disk after some uses, or the fault of the first recording that fails. -/
def run (folder : Path) : List Use → Processed × Disk → Except Fault (Processed × Disk)
  | [], state => .ok state
  | .add package :: uses, (p, d) =>
    match p.add package d with
    | (.ok (), p, d) => run folder uses (p, d)
    | (.error e, _, _) => .error e
  | .reopen :: uses, (_, d) => run folder uses (openAt folder d, d)

/-- What every successful recording and every reopening preserve holds after every history. -/
theorem run_induction {folder : Path} {Holds : Processed → Disk → Prop}
    (hadd : ∀ p d package p' d', Holds p d → p.add package d = (.ok (), p', d') → Holds p' d')
    (hreopen : ∀ p d, Holds p d → Holds (openAt folder d) d)
    {uses : List Use} {p p' : Processed} {d d' : Disk}
    (h : run folder uses (p, d) = .ok (p', d')) (hstart : Holds p d) : Holds p' d' := by
  induction uses generalizing p d with
  | nil =>
    cases h
    exact hstart
  | cons use uses ih =>
    cases use with
    | add package =>
      rw [run] at h
      split at h
      · rename_i p₁ d₁ hrecorded
        exact ih h (hadd _ _ _ _ _ hstart hrecorded)
      · cases h
    | reopen => exact ih h (hreopen _ _ hstart)

/-- The file of a folder's journal. -/
abbrev file (folder : Path) : Path := folder.child fileName

/-- The texts in the file of the journal, none if there is no file. -/
def written (folder : Path) (d : Disk) : List String :=
  match d.look (file folder) with
  | .file bytes => Record.textsOf bytes
  | .folder | .missing | .blocked => []

/-- Opening the journal reads what is written. -/
theorem openAt_eq (folder : Path) (d : Disk) :
    openAt folder d = ⟨file folder, NameSet.ofList (written folder d)⟩ := by
  simp only [openAt, Store.texts, Store.read, Disk.readFile, written]
  cases d.look (folder.child fileName) <;> rfl

/-- A recording that succeeds changes nothing, or it puts a new package into the set and its
record behind the file. -/
theorem add_ok {p p' : Processed} {package : String} {d d' : Disk}
    (h : p.add package d = (.ok (), p', d')) :
    (p' = p ∧ d' = d) ∨
    ∃ record, Record.putText package = .ok record ∧
      p' = ⟨p.path, p.packages.insert package⟩ ∧
      ((∃ old, d.look p.path = .file old ∧ d'.look p.path = .file (old ++ record)) ∨
        (d.look p.path = .missing ∧ d'.look p.path = .file record)) := by
  unfold add at h
  split at h
  · cases h
    exact .inl ⟨rfl, rfl⟩
  · right
    cases hrecord : Record.putText package with
    | error e => simp [Store.append, hrecord] at h
    | ok record =>
      rcases happend : d.appendFile p.path record with ⟨outcome, d₁⟩
      simp only [Store.append, hrecord, happend, Prod.mk.injEq] at h
      obtain ⟨houtcome, rfl, rfl⟩ := h
      cases outcome with
      | error refusal => cases houtcome
      | ok _ => exact ⟨record, rfl, rfl, Disk.appendFile_ok happend⟩

/-- The texts `names` were read by the first opening, and are still there. -/
structure Remembers (folder : Path) (names : List String) (p : Processed) (d : Disk) : Prop where
  path : p.path = file folder
  written : names <+: written folder d

theorem Remembers.add {folder : Path} {names : List String} {p p' : Processed} {d d' : Disk}
    {package : String} (h : Remembers folder names p d)
    (hadd : p.add package d = (.ok (), p', d')) : Remembers folder names p' d' := by
  obtain ⟨rfl, rfl⟩ | ⟨record, _, rfl, hfile⟩ := add_ok hadd
  · exact h
  · refine ⟨h.path, h.written.trans ?_⟩
    rw [h.path] at hfile
    rcases hfile with ⟨old, hold, hnew⟩ | ⟨hold, _⟩
    · rw [Processed.written, Processed.written, hold, hnew]
      exact Record.textsOf_prefix old record
    · rw [Processed.written, hold]
      exact List.nil_prefix

/-- The file, if there is one, consists of whole records. -/
def Whole (folder : Path) (d : Disk) : Prop :=
  ∀ bytes, d.look (file folder) = .file bytes → ∃ names, Record.putTexts names = .ok bytes

/-- The file consists of whole records, and they are those of the set in memory. -/
structure Faithful (folder : Path) (p : Processed) (d : Disk) : Prop where
  path : p.path = file folder
  whole : Whole folder d
  packages : ∀ package, package ∈ p.packages ↔ package ∈ written folder d

theorem faithful_openAt {folder : Path} {d : Disk} (h : Whole folder d) :
    Faithful folder (openAt folder d) d := by
  rw [openAt_eq]
  exact ⟨rfl, h, fun _ => NameSet.mem_ofList⟩

/-- The texts of whole records with one more behind them. -/
theorem textsOf_concat {names : List String} {package : String} {old record : Bytes}
    (hold : Record.putTexts names = .ok old) (hrecord : Record.putText package = .ok record) :
    Record.textsOf (old ++ record) = Record.textsOf old ++ [package] := by
  have hall := Record.textsOf_putTexts (Record.putTexts_concat hold hrecord) []
  have hbefore := Record.textsOf_putTexts hold []
  have hnil : Record.textsOf [] = [] := rfl
  simp only [List.append_nil, hnil] at hall hbefore
  rw [hall, hbefore]

theorem Faithful.add {folder : Path} {p p' : Processed} {d d' : Disk} {package : String}
    (h : Faithful folder p d) (hadd : p.add package d = (.ok (), p', d')) :
    Faithful folder p' d' := by
  obtain ⟨rfl, rfl⟩ | ⟨record, hrecord, rfl, hfile⟩ := add_ok hadd
  · exact h
  -- a missing file is one of no records
  obtain ⟨names, old, hold, hwritten, hnew⟩ : ∃ names old, Record.putTexts names = .ok old ∧
      written folder d = Record.textsOf old ∧ d'.look (file folder) = .file (old ++ record) := by
    rw [h.path] at hfile
    rcases hfile with ⟨old, hlook, hnew⟩ | ⟨hlook, hnew⟩
    · obtain ⟨names, hold⟩ := h.whole old hlook
      exact ⟨names, old, hold, by rw [written, hlook], hnew⟩
    · exact ⟨[], [], rfl, by rw [written, hlook]; rfl, hnew⟩
  have hwritten' : written folder d' = written folder d ++ [package] := by
    rw [written, hnew, hwritten]
    exact textsOf_concat hold hrecord
  refine ⟨h.path, fun bytes hbytes => ?_, fun other => ?_⟩
  · obtain rfl : old ++ record = bytes := Sight.file.inj (hnew.symm.trans hbytes)
    exact ⟨names ++ [package], Record.putTexts_concat hold hrecord⟩
  · rw [NameSet.mem_insert, hwritten', List.mem_append, List.mem_singleton, h.packages, or_comm]

/-- **What reopening remembers.** After every history of successful recordings and reopenings,
reopening finds every package that the first opening found. If the file consisted of whole
records at first, or there was none, reopening finds exactly the set in memory. -/
theorem run_reopened {folder : Path} {uses : List Use} {d d' : Disk} {p' : Processed}
    (h : run folder uses (openAt folder d, d) = .ok (p', d')) :
    (∀ package ∈ (openAt folder d).packages, package ∈ (openAt folder d').packages) ∧
      (Whole folder d → (openAt folder d').packages = p'.packages) := by
  constructor
  · intro package hpackage
    have hkept : Remembers folder (written folder d) p' d' := by
      refine run_induction (fun _ _ _ _ _ hp hadd => hp.add hadd)
        (fun _ _ hp => ⟨?_, hp.written⟩) h ⟨?_, List.prefix_refl _⟩
      all_goals rw [openAt_eq]
    rw [openAt_eq, NameSet.mem_ofList] at hpackage ⊢
    exact hkept.written.subset hpackage
  · intro hwhole
    have hfaithful : Faithful folder p' d' :=
      run_induction (fun _ _ _ _ _ hp hadd => hp.add hadd)
        (fun _ _ hp => faithful_openAt hp.whole) h (faithful_openAt hwhole)
    refine NameSet.ext fun package => ?_
    rw [hfaithful.packages, openAt_eq, NameSet.mem_ofList]

/-- A disk whose root holds the journal with one package. -/
def oneRecord : Disk := { nodes := [(file [], .file [0, 5, 99, 111, 109, 46, 97])] }

theorem whole_oneRecord : Whole [] oneRecord := by
  intro bytes hbytes
  cases hbytes
  exact ⟨["com.a"], rfl⟩

theorem run_reopened_oneRecord :
    ∃ p d, run [] [.add "com.x", .reopen, .add "com.a"] (openAt [] oneRecord, oneRecord) =
        .ok (p, d) ∧ p.packages.toList = ["com.a", "com.x"] ∧
      (∀ package ∈ (openAt [] oneRecord).packages, package ∈ (openAt [] d).packages) ∧
      (openAt [] d).packages = p.packages := by
  refine ⟨_, _, rfl, by decide, ?_⟩
  have h := run_reopened
    (rfl : run [] [.add "com.x", .reopen, .add "com.a"] (openAt [] oneRecord, oneRecord) =
      .ok (_, _))
  exact ⟨h.1, h.2 whole_oneRecord⟩

/-- A disk whose root holds the journal with a torn record: five octets were to follow, two
did. -/
def tornRecord : Disk := { nodes := [(file [], .file [0, 5, 99, 111])] }

/-- The torn record ends in the middle of the next one, so the package that was recorded is read
as another name. -/
theorem torn_record_hides_package :
    ∃ p d, run [] [.add "com.x"] (openAt [] tornRecord, tornRecord) = .ok (p, d) ∧
      "com.x" ∈ p.packages ∧ "com.x" ∉ (openAt [] d).packages ∧
      (openAt [] d).packages ≠ p.packages :=
  ⟨_, _, rfl, by decide, by decide, by decide⟩

end Processed

end Holdfast
