import Holdfast.Proofs.Engine.Slot

/-!
# Participation follows the catalog

The engine keeps a table of the key-value participants by identity and a schedule of the packages
that are backed up in full. Both were read off the catalog at the start, and are corrected by the
signals that packages were installed, replaced, changed or uninstalled.

- `System.Listed`: a package stands in the table under an identity;
- `Agenda.Enrolled`: table and schedule are in step with the catalog, but perhaps for one package
  whose signal is due;
- `World.Signalled`: runs in which every change of the catalog is followed by its signal;
- `World.participation`: **after such a run the table lists a package under an identity exactly if
  the catalog does, and every package that gets full backups is scheduled or being backed up**.
-/

namespace Holdfast

namespace System

variable {participants : List (Nat × NameSet)} {uid uid' : Nat} {package name : String}

/-! ## The table of participants -/

/-- A package is listed as a participant of an identity. -/
def Listed (participants : List (Nat × NameSet)) (uid : Nat) (package : String) : Prop :=
  ∃ entry ∈ participants, entry.1 = uid ∧ package ∈ entry.2

/-- Where each identity has one entry, what is listed is what is looked up. -/
theorem mem_lookup (hkeys : (participants.map (·.1)).Nodup) :
    package ∈ (participants.lookup uid).getD .empty ↔ Listed participants uid package := by
  cases hlookup : participants.lookup uid with
  | none =>
    rw [List.lookup_eq_none_iff] at hlookup
    simp only [Option.getD_none, NameSet.not_mem_empty, false_iff]
    rintro ⟨entry, hmem, rfl, -⟩
    exact absurd (hlookup entry hmem) (by simp)
  | some names =>
    obtain ⟨before, behind, hsplit, -⟩ := List.lookup_eq_some_iff.1 hlookup
    have hmem : (uid, names) ∈ participants := by simp [hsplit]
    rw [Option.getD_some]
    constructor
    · exact fun hin => ⟨_, hmem, rfl, hin⟩
    · rintro ⟨entry, hentry, huid, hin⟩
      rwa [List.inj_on_of_nodup_map hkeys hentry hmem huid] at hin

theorem listed_with : Listed (withParticipant participants uid package) uid' name ↔
    (uid' = uid ∧ name = package) ∨ Listed participants uid' name := by
  induction participants with
  | nil => simp [withParticipant, Listed, eq_comm]
  | cons entry rest ih =>
    unfold withParticipant
    unfold Listed at ih ⊢
    split
    · rename_i huid
      simp only [List.mem_cons, exists_eq_or_imp, NameSet.mem_insert, huid]
      constructor
      · rintro (⟨rfl, rfl | hin⟩ | hrest)
        · exact .inl ⟨rfl, rfl⟩
        · exact .inr (.inl ⟨rfl, hin⟩)
        · exact .inr (.inr hrest)
      · rintro (⟨rfl, rfl⟩ | ⟨rfl, hin⟩ | hrest)
        · exact .inl ⟨rfl, .inl rfl⟩
        · exact .inl ⟨rfl, .inr hin⟩
        · exact .inr hrest
    · simp only [List.mem_cons, exists_eq_or_imp, ih]
      exact or_left_comm

theorem listed_without : Listed (withoutParticipant participants package) uid name ↔
    Listed participants uid name ∧ name ≠ package := by
  unfold Listed withoutParticipant
  simp only [List.mem_map, exists_exists_and_eq_and, NameSet.mem_erase]
  constructor
  · rintro ⟨entry, hmem, huid, hin, hne⟩
    exact ⟨⟨entry, hmem, huid, hin⟩, hne⟩
  · rintro ⟨⟨entry, hmem, huid, hin⟩, hne⟩
    exact ⟨entry, hmem, huid, hin, hne⟩

/-- Entries without a package list nobody. -/
theorem listed_nonempty : Listed (participants.filter (fun entry => !entry.2.isEmpty)) uid name ↔
    Listed participants uid name := by
  unfold Listed
  refine exists_congr fun entry => ?_
  rw [List.mem_filter, and_assoc]
  refine and_congr_right fun _ => and_iff_right_of_imp fun ⟨_, hin⟩ => ?_
  rw [Bool.not_eq_true', NameSet.isEmpty, List.isEmpty_eq_false_iff]
  exact List.ne_nil_of_mem hin

theorem keys_with (participants : List (Nat × NameSet)) (uid : Nat) (package : String) :
    (withParticipant participants uid package).map (·.1) =
      if uid ∈ participants.map (·.1) then participants.map (·.1)
      else participants.map (·.1) ++ [uid] := by
  induction participants with
  | nil => rfl
  | cons entry rest ih =>
    unfold withParticipant
    by_cases huid : entry.1 = uid
    · simp [huid]
    · have hne : uid ≠ entry.1 := fun h => huid h.symm
      simp only [huid, if_false, List.map_cons, ih, List.mem_cons, hne, false_or]
      split <;> rfl

theorem keys_with_nodup (hkeys : (participants.map (·.1)).Nodup) (uid : Nat) (package : String) :
    ((withParticipant participants uid package).map (·.1)).Nodup := by
  rw [keys_with]
  split
  · exact hkeys
  · rename_i hnew
    exact List.nodup_append.2 ⟨hkeys, List.nodup_singleton uid, fun a ha b hb => by
      rw [List.mem_singleton.1 hb]
      rintro rfl
      exact hnew ha⟩

theorem keys_without (participants : List (Nat × NameSet)) (package : String) :
    (withoutParticipant participants package).map (·.1) = participants.map (·.1) := by
  rw [withoutParticipant, List.map_map]
  rfl

/-- The table of a new engine. -/
theorem participantsOf_listed (installed : List Package) :
    ((participantsOf installed).map (·.1)).Nodup ∧ ∀ uid package,
      (Listed (participantsOf installed) uid package ↔
        ∃ p ∈ installed, p.name = package ∧ p.uid = uid ∧ p.isParticipant = true) := by
  have hfold : ∀ (more : List Package) (participants : List (Nat × NameSet)),
      (participants.map (·.1)).Nodup →
      ((more.foldl (fun participants p => withParticipant participants p.uid p.name)
        participants).map (·.1)).Nodup ∧ ∀ uid package,
        (Listed (more.foldl (fun participants p => withParticipant participants p.uid p.name)
          participants) uid package ↔
            Listed participants uid package ∨ ∃ p ∈ more, p.name = package ∧ p.uid = uid) := by
    intro more
    induction more with
    | nil => exact fun participants hkeys => ⟨hkeys, fun uid package => by simp⟩
    | cons p more ih =>
      intro participants hkeys
      obtain ⟨hnodup, hlisted⟩ := ih _ (keys_with_nodup hkeys p.uid p.name)
      refine ⟨hnodup, fun uid package => ?_⟩
      rw [List.foldl_cons, hlisted, listed_with]
      simp only [List.mem_cons, exists_eq_or_imp]
      constructor
      · rintro ((⟨rfl, rfl⟩ | hold) | hmore)
        · exact .inr (.inl ⟨rfl, rfl⟩)
        · exact .inl hold
        · exact .inr (.inr hmore)
      · rintro (hold | ⟨rfl, rfl⟩ | hmore)
        · exact .inl (.inr hold)
        · exact .inl (.inl ⟨rfl, rfl⟩)
        · exact .inr hmore
  obtain ⟨hnodup, hlisted⟩ := hfold (installed.filter (·.isParticipant)) [] List.nodup_nil
  refine ⟨hnodup, fun uid package => (hlisted uid package).trans ?_⟩
  simp only [Listed, List.not_mem_nil, false_and, exists_false, false_or, List.mem_filter]
  exact exists_congr fun p => ⟨fun ⟨⟨hmem, htakes⟩, hname, huid⟩ => ⟨hmem, hname, huid, htakes⟩,
    fun ⟨hmem, hname, huid, htakes⟩ => ⟨⟨hmem, htakes⟩, hname, huid⟩⟩

end System

namespace Schedule

variable {q q' : Schedule} {package name : String} {e : ScheduleEntry}

theorem Single.mem_packages_dequeue (h : q.Single) :
    name ∈ (q.dequeue package).packages ↔ name ∈ q.packages ∧ name ≠ package := by
  simp only [packages, List.mem_map, h.mem_dequeue]
  constructor
  · rintro ⟨e, ⟨hmem, hne⟩, rfl⟩
    exact ⟨⟨e, hmem, rfl⟩, hne⟩
  · rintro ⟨⟨e, hmem, rfl⟩, hne⟩
    exact ⟨e, ⟨hmem, hne⟩, rfl⟩

/-- The packages after an entry was put in place of that of its package. -/
theorem Single.mem_packages_of_perm (h : q.Single)
    (hperm : q'.entries.Perm (e :: (q.dequeue e.package).entries)) :
    name ∈ q'.packages ↔ name = e.package ∨ name ∈ q.packages := by
  rw [packages, (hperm.map _).mem_iff, List.map_cons, List.mem_cons]
  show name = e.package ∨ name ∈ (q.dequeue e.package).packages ↔ _
  rw [h.mem_packages_dequeue]
  by_cases hsame : name = e.package <;> simp [hsame]

theorem Single.mem_packages_enqueue (h : q.Single) {lastBackup : Int} :
    name ∈ (q.enqueue package lastBackup).packages ↔ name = package ∨ name ∈ q.packages :=
  h.mem_packages_of_perm (e := q.entryFor package lastBackup) (q.enqueue_perm package lastBackup)

theorem Single.mem_packages_defer (h : q.Single) {lastBackup dueAt : Int} :
    name ∈ (q.defer package lastBackup dueAt).packages ↔ name = package ∨ name ∈ q.packages :=
  h.mem_packages_of_perm (e := ⟨package, lastBackup, dueAt⟩) (q.defer_perm package lastBackup dueAt)

end Schedule

open Holdfast.System Holdfast.Schedule

/-! ## In step with the catalog -/

/-- Whether a scheduled full backup that stands here has its package out of the schedule. One that
has broken down keeps it out for good. -/
def Stage.withholds : Stage → Bool
  | .closing _ | .leaving => false
  | .opening | .choosing | .queued _ _ | .binding _ _ | .prepared _ _ | .starting _ _
  | .working _ _ | .calling _ | .fallen => true

theorem Stage.withholds_of_not_done {stage : Stage} (h : stage.isDone = false) :
    stage.withholds = true := by
  cases stage <;> first | rfl | cases h

/-- The catalog holds a package as a participant of an identity. -/
def Participates (catalog : List Package) (uid : Nat) (package : String) : Prop :=
  ∃ p, catalog.find? (·.name == package) = some p ∧ p.uid = uid ∧ p.isParticipant = true

namespace Agenda

variable {a a' : Agenda} {spared : Option String} {package : String} {p : Package}

/-- A scheduled full backup has a package out of the schedule. -/
def Withheld (a : Agenda) (package : String) : Prop :=
  ∃ number p lastBackup token stage, (number, .full p lastBackup token stage) ∈ a.fulls ∧
    p.name = package ∧ stage.withholds = true

/-- A package is scheduled for a full backup, or it is being backed up in full. -/
def Covers (a : Agenda) (package : String) : Prop :=
  package ∈ a.schedule.packages ∨ a.Withheld package

theorem Withheld.subset (h : a.Withheld package) (hfulls : a.fulls ⊆ a'.fulls) :
    a'.Withheld package := by
  obtain ⟨number, p, lastBackup, token, stage, hmem, hheld⟩ := h
  exact ⟨number, p, lastBackup, token, stage, hfulls hmem, hheld⟩

theorem fulls_enter_subset (a : Agenda) (number : Nat) (errand : Errand) :
    a.fulls ⊆ (a.enter number errand).fulls := fun _ hmem =>
  mem_fulls.2 ⟨List.mem_append_left _ (mem_fulls.1 hmem).1, (mem_fulls.1 hmem).2⟩

/-- It holds the slot. -/
theorem Withheld.running (h : a.Withheld package) (hslot : a.Slot) :
    ∃ token, a.running = some (token, package) := by
  obtain ⟨number, p, lastBackup, token, stage, hmem, rfl, hwithholds⟩ := h
  have hkept : stage.isLeaving = false := by
    cases stage <;> first | rfl | cases hwithholds
  obtain ⟨running, -, hrunning, -⟩ := hslot.of_mem (mem_fulls.1 hmem).1 hkept
  exact ⟨running, hrunning⟩

/-- Table and schedule are in step with the catalog, but perhaps for one package whose signal is
due. -/
structure Enrolled (a : Agenda) (spared : Option String) : Prop where
  keys : (a.participants.map (·.1)).Nodup
  listed : ∀ uid package, spared ≠ some package →
    (Listed a.participants uid package ↔ Participates a.catalog uid package)
  covered : ∀ package p, spared ≠ some package → IsCandidate a.catalog package p →
    a.Covers package

theorem Enrolled.spare (h : a.Enrolled none) (spared : Option String) : a.Enrolled spared :=
  ⟨h.keys, fun uid package _ => h.listed uid package nofun,
    fun package p _ => h.covered package p nofun⟩

/-- Table and catalog are the same, and nobody who gets full backups is left out. -/
theorem Enrolled.of_covers (h : a.Enrolled spared)
    (hparticipants : a'.participants = a.participants) (hcatalog : a'.catalog = a.catalog)
    (hcovers : ∀ package p, IsCandidate a.catalog package p → a.Covers package →
      a'.Covers package) : a'.Enrolled spared where
  keys := hparticipants ▸ h.keys
  listed := hparticipants ▸ hcatalog ▸ h.listed
  covered package p hspared hcandidate := by
    rw [hcatalog] at hcandidate
    exact hcovers package p hcandidate (h.covered package p hspared hcandidate)

theorem Enrolled.congr (h : a.Enrolled spared) (hparticipants : a'.participants = a.participants)
    (hcatalog : a'.catalog = a.catalog) (hschedule : a'.schedule = a.schedule)
    (hfulls : a.fulls ⊆ a'.fulls) : a'.Enrolled spared := by
  refine h.of_covers hparticipants hcatalog fun package p _ hcovers => ?_
  exact hcovers.imp (fun hscheduled => hschedule ▸ hscheduled) fun hheld => hheld.subset hfulls

/-! ## Signals -/

theorem joined_keys (hkeys : (a.participants.map (·.1)).Nodup) (package : String) (p : Package)
    (replacing : Bool) : ((a.joined package p replacing).map (·.1)).Nodup := by
  have hothers : ((if replacing then withoutParticipant a.participants package
      else a.participants).map (·.1)).Nodup := by
    split
    · rw [keys_without]
      exact hkeys
    · exact hkeys
  unfold joined
  simp only
  split
  · exact keys_with_nodup hothers _ _
  · exact hothers

theorem joined_listed {replacing : Bool} {uid : Nat} {name : String} :
    Listed (a.joined package p replacing) uid name ↔
      (p.isParticipant = true ∧ uid = p.uid ∧ name = package) ∨
        (Listed a.participants uid name ∧ (replacing = true → name ≠ package)) := by
  have hothers : Listed (if replacing then withoutParticipant a.participants package
      else a.participants) uid name ↔
        Listed a.participants uid name ∧ (replacing = true → name ≠ package) := by
    cases replacing with
    | false => simp
    | true => simpa using listed_without
  unfold joined
  simp only
  split
  · rename_i htakes
    rw [listed_with, hothers, and_iff_right htakes]
  · rename_i hnot
    rw [hothers, or_iff_right (fun h => hnot h.1)]

/-- A package was announced as installed. -/
theorem Enrolled.add (h : a.Enrolled (some package)) (hq : a.schedule.Single)
    (hfind : a.catalog.find? (·.name == package) = some p) {replacing : Bool}
    (hown : replacing = true ∨ ∀ uid, Listed a.participants uid package →
      Participates a.catalog uid package) : (a.add package p replacing).Enrolled none := by
  obtain ⟨writing, mail, heq⟩ := a.add_eq package p replacing
  rw [heq]
  refine ⟨joined_keys h.keys package p replacing, fun uid name _ => ?_,
    fun name p' _ hcandidate => ?_⟩
  · refine joined_listed.trans ?_
    by_cases hname : name = package
    · subst hname
      constructor
      · rintro (⟨htakes, huid, -⟩ | ⟨hlisted, hnot⟩)
        · exact ⟨p, hfind, huid.symm, htakes⟩
        · rcases hown with hreplacing | hown
          · exact absurd rfl (hnot hreplacing)
          · exact hown uid hlisted
      · rintro ⟨p', hfind', huid, htakes⟩
        cases hfind.symm.trans hfind'
        exact .inl ⟨htakes, huid.symm, rfl⟩
    · have hne : some package ≠ some name := fun hsame => hname (Option.some.inj hsame).symm
      rw [← h.listed uid name hne]
      simp [hname]
  · by_cases hname : name = package
    · subst hname
      obtain ⟨hfind', hgets⟩ := hcandidate
      cases hfind.symm.trans hfind'
      refine .inl ?_
      simp only [hgets, if_true]
      exact hq.mem_packages_enqueue.2 (.inl rfl)
    · have hne : some package ≠ some name := fun hsame => hname (Option.some.inj hsame).symm
      rcases h.covered name p' hne hcandidate with hscheduled | hrunning
      · refine .inl ?_
        show name ∈ (if p.getsFullBackup then _ else _ : Schedule).packages
        split
        · exact hq.mem_packages_enqueue.2 (.inr hscheduled)
        · exact hq.mem_packages_dequeue.2 ⟨hscheduled, hname⟩
      · exact .inr hrunning

/-- A package was announced as gone. -/
theorem Enrolled.remove (h : a.Enrolled (some package))
    (hgone : a.catalog.find? (·.name == package) = none) : (a.remove package).Enrolled none := by
  refine ⟨?_, fun uid name _ => ?_, fun name p _ hcandidate => ?_⟩
  · refine List.Nodup.sublist (List.filter_sublist.map _) ?_
    rw [keys_without]
    exact h.keys
  · refine (listed_nonempty.trans listed_without).trans ?_
    by_cases hname : name = package
    · subst hname
      refine ⟨fun hlisted => absurd rfl hlisted.2, ?_⟩
      rintro ⟨p, hfind, -⟩
      cases hgone.symm.trans hfind
    · rw [and_iff_left hname]
      exact h.listed uid name fun hsame => hname (Option.some.inj hsame).symm
  · refine h.covered name p (fun hsame => ?_) hcandidate
    cases hsame
    cases hgone.symm.trans hcandidate.1

/-- The catalog changed for one package at most. -/
theorem Enrolled.outside (h : a.Enrolled none) {catalog : List Package} {now : Int}
    {chance : List Nat}
    (hothers : ∀ package, spared ≠ some package →
      catalog.find? (·.name == package) = a.catalog.find? (·.name == package)) :
    ({ a with catalog, now, chance } : Agenda).Enrolled spared where
  keys := h.keys
  listed uid package hspared := by
    refine (h.listed uid package nofun).trans (exists_congr fun p => ?_)
    rw [hothers package hspared]
  covered package p hspared hcandidate :=
    h.covered package p nofun ⟨(hothers package hspared).symm.trans hcandidate.1, hcandidate.2⟩

/-! ## Full backups -/

theorem reschedule_schedule (a : Agenda) (q : Schedule) : (a.reschedule q).schedule = q := by
  rw [reschedule, request_schedule]

theorem endFull_scheduled (hq : a.schedule.Single) (number : Nat) (p : Package) (lastBackup : Int)
    (token : Option OpToken) (status : Status) (hscheduled : package ∈ a.schedule.packages) :
    package ∈ (a.endFull number p lastBackup token status).schedule.packages := by
  unfold endFull
  split
  · show package ∈ (a.reschedule _).schedule.packages
    rw [reschedule_schedule]
    exact hq.mem_packages_enqueue.2 (.inr hscheduled)
  · split
    · show package ∈ (a.drawRetry.reschedule _).schedule.packages
      rw [reschedule_schedule]
      exact hq.mem_packages_defer.2 (.inr hscheduled)
    · exact hscheduled

/-- No task takes a package out of the schedule. -/
theorem Turn.scheduled {assents : Prop} {number : Nat} {errand : Errand}
    (hturn : Turn a assents number errand a') (hq : a.schedule.Single)
    (hscheduled : package ∈ a.schedule.packages) : package ∈ a'.schedule.packages := by
  cases hturn with
  | stays _ hheeds | moves _ hheeds =>
    rcases hheeds with rfl | ⟨_, rfl⟩ <;> exact hscheduled
  | files name =>
    rw [reschedule_schedule]
    exact hq.mem_packages_enqueue.2 (.inr hscheduled)
  | wipes | quits | leaves => exact hscheduled
  | @ends drained _ status disk _ =>
    obtain ⟨_, heq, -⟩ := a.endPass_eq number drained status disk
    rw [heq]
    exact hscheduled
  | departs =>
    unfold closePass
    split <;> exact hscheduled
  | @closes p lastBackup token _ status _ _ =>
    exact endFull_scheduled hq number p lastBackup token status hscheduled
  | @vacates p lastBackup token status =>
    obtain ⟨_, heq⟩ := a.vacate_eq token
    rw [heq]
    exact hscheduled

/-- A full backup puts its package back before it gives up its place. -/
theorem Turn.covers {assents : Prop} {number : Nat} {errand : Errand}
    (hturn : Turn a assents number errand a') (ha : a.Distinct)
    (hmem : (number, errand) ∈ a.errands) (hq : a.schedule.Single) (hcovers : a.Covers package) :
    a'.Covers package := by
  rcases hcovers with hscheduled | ⟨other, p, lastBackup, token, old, hfull, rfl, hwithholds⟩
  · exact .inl (hturn.scheduled hq hscheduled)
  have hold := (mem_fulls.1 hfull).1
  by_cases hother : other = number
  · -- it is this one
    subst hother
    cases ha.eq hold hmem
    have hseated : ∀ {a₁ : Agenda} {stage : Stage},
        (other, .full p lastBackup token old) ∈ a₁.errands → stage.withholds = true →
        (a₁.seat other (.full p lastBackup token stage)).Withheld p.name := by
      intro a₁ stage hplace hkept
      have hnew : (other, .full p lastBackup token stage) ∈
          (a₁.seat other (.full p lastBackup token stage)).errands :=
        List.mem_map.2 ⟨_, hplace, if_pos rfl⟩
      exact ⟨other, p, lastBackup, token, stage, mem_fulls.2 ⟨hnew, rfl⟩, rfl, hkept⟩
    cases hturn with
    | stays hnot => cases hnot
    | moves hadvances hheeds =>
      exact .inr (hseated (hheeds.mem_full hmem) (Stage.withholds_of_not_done hadvances.after))
    | @closes _ _ _ _ status _ _ =>
      obtain ⟨a₁, stage, heq, -, herrands, ⟨hback, -⟩ | ⟨-, -, rfl⟩⟩ :=
        a.endFull_eq other p lastBackup token status
      · obtain ⟨e, he, hpackage, -⟩ := endFull_entry hq other p lastBackup token hback
        exact .inl (List.mem_map.2 ⟨e, he, hpackage⟩)
      · rw [heq]
        exact .inr (hseated (herrands ▸ hmem) rfl)
    | vacates => cases hwithholds
    | leaves => cases hwithholds
  · have hnew := (hturn.mem_iff ha hmem rfl hother).2 hold
    exact .inr ⟨other, p, lastBackup, token, old, mem_fulls.2 ⟨hnew, rfl⟩, rfl, hwithholds⟩

end Agenda

open Agenda

/-- The full-backup job drops nobody who gets full backups. -/
theorem System.BeginsFull.covers {s : System} {outcome : FullOutcome} {a : Agenda}
    (h : s.BeginsFull outcome a) {package : String} {p : Package}
    (hcandidate : IsCandidate s.agenda.catalog package p) (hcovers : s.agenda.Covers package) :
    a.Covers package := by
  -- what was scheduled is in the sifted schedule
  have hkept : ∀ {q : Schedule}, Sifted s.agenda.catalog s.agenda.schedule q →
      package ∈ s.agenda.schedule.packages → package ∈ q.packages := by
    intro q hsifted hscheduled
    obtain ⟨e, he, rfl⟩ := List.mem_map.1 hscheduled
    obtain ⟨e', he', hpackage⟩ := hsifted.kept e he p hcandidate
    exact List.mem_map.2 ⟨e', he', hpackage⟩
  cases h with
  | nothing _ => exact hcovers
  | sifts _ hsifted =>
    refine hcovers.imp (fun hscheduled => ?_) fun hheld => hheld.subset ?_
    · rw [reschedule_schedule]
      exact hkept hsifted hscheduled
    · rw [reschedule_fulls]
      exact List.Subset.refl _
  | @starts entry p' q _ token hidle hsifted _ hfound =>
    rw [Agenda.Covers, request_schedule]
    by_cases hname : package = entry.package
    · -- it is the one that is backed up now
      subst hname
      have hpackage : p'.name = entry.package := by simpa using List.find?_some hfound.1
      refine .inr ⟨s.engine.nextNumber, p', entry.lastBackup, some token, .opening, ?_, hpackage,
        rfl⟩
      rw [request_fulls]
      exact mem_fulls.2 ⟨List.mem_append_right _ (List.mem_singleton_self _), rfl⟩
    · refine hcovers.imp (fun hscheduled => ?_) fun hheld => hheld.subset ?_
      · exact hsifted.single.mem_packages_dequeue.2 ⟨hkept hsifted hscheduled, hname⟩
      · rw [request_fulls]
        exact fulls_enter_subset _ _ _

namespace World

variable {w : World}

/-! ## Runs with signals -/

/-- An incident that changes nothing in the catalog, and announces nobody as gone who is there. -/
def Quiet (w : World) : Incident → Prop
  | .event (.outside _ device) =>
    ∀ package, device.package? package = w.system.device.package? package
  | .event (.call (.packageRemoved package false)) => w.system.device.package? package = none
  | _ => True

/-- What is to be heard of a package after the catalog has changed for it. -/
inductive Signal (w : World) (device : Device) (package : String) : List Call → Prop where
  | installed : w.system.device.package? package = none → device.package? package ≠ none →
    Signal w device package [.packageAdded package false]
  | uninstalled : device.package? package = none →
    Signal w device package [.packageRemoved package false]
  | replaced : device.package? package ≠ none →
    Signal w device package [.packageRemoved package true, .packageAdded package true]
  | changed : device.package? package ≠ none → Signal w device package [.packageChanged package]

/-- Runs in which every change of the catalog is followed by its signal. -/
inductive Signalled : World → List Incident → Prop where
  | done {w : World} : Signalled w []
  | quiet {w : World} {i : Incident} {rest : List Incident} : w.Quiet i →
    Signalled (w.meet i) rest → Signalled w (i :: rest)
  /-- The catalog changes for one package, and its signal follows. -/
  | signal {w : World} {disk : Disk} {device : Device} {package : String} {calls : List Call}
      {rest : List Incident} :
    (∀ other, other ≠ package → device.package? other = w.system.device.package? other) →
    w.Signal device package calls →
    Signalled (w.live (.event (.outside disk device) :: calls.map fun c => .event (.call c))) rest →
    Signalled w
      (.event (.outside disk device) :: calls.map (fun c => .event (.call c)) ++ rest)

/-- Whatever happens beside the signals keeps table and schedule in step. -/
theorem Affair.enrolled {i : Incident} {a : Agenda} (h : w.Affair i a) (hw : w.Orderly)
    (hquiet : w.Quiet i)
    (he : w.system.agenda.Enrolled none) : a.Enrolled none := by
  have hq := hw.regular.single
  cases h with
  | idle _ => exact he
  | cancelsAll numbers =>
    have hfulls := cancelAll_fulls w.system.agenda numbers
    obtain ⟨_, heq⟩ := w.system.agenda.cancelAll_eq numbers
    rw [heq] at hfulls ⊢
    exact he.congr rfl rfl rfl (hfulls ▸ List.Subset.refl _)
  | reorders _ hperm => exact he.congr rfl rfl rfl (hperm.filter _).symm.subset
  | begins number _ | starts number _ _ | serves _ number _ =>
    exact he.congr rfl rfl rfl (fulls_enter_subset _ number _)
  | cancels number _ => exact he.congr rfl rfl rfl (cancel_fulls _ number ▸ List.Subset.refl _)
  | ticks _ =>
    unfold Agenda.post
    split
    · exact he.congr rfl rfl rfl (.refl _)
    · exact he
  | full hbegins =>
    refine he.of_covers ?_ ?_ fun package p hcandidate hcovers => hbegins.covers hcandidate hcovers
    · obtain ⟨_, _, _, _, _, _, rfl⟩ := hbegins.frame
      rfl
    · obtain ⟨_, _, _, _, _, _, rfl⟩ := hbegins.frame
      rfl
  | rules _ hrules => cases hrules <;> exact he.congr rfl rfl rfl (.refl _)
  | @adds _ package p replacing _ hfind =>
    exact (he.spare (some package)).add hq hfind
      (.inr fun uid hlisted => (he.listed uid package nofun).1 hlisted)
  | removes package replacing _ =>
    cases replacing with
    | true => exact he.congr rfl rfl rfl (.refl _)
    | false => exact ((he.spare (some package)).remove hquiet).congr rfl rfl rfl (.refl _)
  | outside disk device => exact he.outside fun package _ => hquiet package
  | turn hfind _ hturn =>
    have hmem := System.mem_errands (List.mem_of_find?_eq_some hfind)
    refine he.of_covers ?_ ?_ fun package p _ hcovers =>
      hturn.covers hw.numbered.distinct hmem hq hcovers
    · obtain ⟨_, _, _, _, _, _, _, _, rfl⟩ := hturn.frame
      rfl
    · obtain ⟨_, _, _, _, _, _, _, _, rfl⟩ := hturn.frame
      rfl
  | stages | sleeps | postpones | recounts | writes | stops | saves | resets | registers
  | unregisters => exact he.congr rfl rfl rfl (.refl _)

/-- A change of the catalog and its signal keep table and schedule in step. -/
theorem Signal.enrolled {disk : Disk} {device : Device} {package : String} {calls : List Call}
    (h : w.Signal device package calls) (hw : w.Orderly) (he : w.system.agenda.Enrolled none)
    (hothers : ∀ other, other ≠ package →
      device.package? other = w.system.device.package? other) :
    (w.live (.event (.outside disk device) ::
      calls.map fun c => .event (.call c))).system.agenda.Enrolled none := by
  generalize hchanged : w.meet (.event (.outside disk device)) = w'
  have hlive : ∀ incidents : List Incident,
      w.live (.event (.outside disk device) :: incidents) = w'.live incidents := by
    intro incidents
    rw [← hchanged]
    rfl
  have hagenda : w'.system.agenda = { w.system.agenda with
      catalog := device.catalog, now := device.now, chance := device.chance } := by
    rw [← hchanged]
    rfl
  have hdevice : ∀ name, w'.system.device.package? name = device.package? name := by
    intro name
    rw [← hchanged]
    rfl
  -- until its signal comes, the package is spared
  have hspared : w'.system.agenda.Enrolled (some package) := by
    rw [hagenda]
    exact he.outside fun other hother => hothers other fun hsame => hother (by rw [hsame])
  have hq : w'.system.agenda.schedule.Single := by
    rw [hagenda]
    exact hw.regular.single
  rw [hlive]
  cases h with
  | installed hnew hfound =>
    obtain ⟨p, hfind⟩ := Option.ne_none_iff_exists'.1 hfound
    rw [← hdevice] at hfind
    have hadded : (w'.live [.event (.call (.packageAdded package false))]).system.agenda =
        w'.system.agenda.add package p false := System.packageAdded_agenda hfind false
    rw [List.map_singleton, hadded]
    refine hspared.add hq hfind (.inr fun uid hlisted => ?_)
    -- it was not there before, so nobody lists it
    rw [hagenda] at hlisted
    obtain ⟨p', hfind', -⟩ := (he.listed uid package nofun).1 hlisted
    cases hnew.symm.trans hfind'
  | uninstalled hgone =>
    rw [← hdevice] at hgone
    obtain ⟨transports, -, heq⟩ := w'.system.packageRemoved_agenda package false
    have hremoved : (w'.live [.event (.call (.packageRemoved package false))]).system.agenda =
        { w'.system.agenda.remove package with transports } := heq
    rw [List.map_singleton, hremoved]
    exact (hspared.remove hgone).congr rfl rfl rfl (.refl _)
  | replaced hfound =>
    obtain ⟨p, hfind⟩ := Option.ne_none_iff_exists'.1 hfound
    obtain ⟨transports, -, hremoved⟩ := w'.system.packageRemoved_agenda package true
    rw [if_pos rfl] at hremoved
    have hcatalog : (w'.system.packageRemoved package true).device.catalog =
        w'.system.device.catalog := congrArg Agenda.catalog hremoved
    have hfind' : (w'.system.packageRemoved package true).device.package? package = some p := by
      unfold Device.package?
      rw [hcatalog]
      exact (hdevice package).trans hfind
    have hadded : (w'.live [.event (.call (.packageRemoved package true)),
        .event (.call (.packageAdded package true))]).system.agenda =
          (w'.system.packageRemoved package true).agenda.add package p true :=
      System.packageAdded_agenda hfind' true
    rw [List.map_cons, List.map_singleton, hadded]
    have hkept : (w'.system.packageRemoved package true).agenda.Enrolled (some package) := by
      rw [hremoved]
      exact hspared.congr rfl rfl rfl (.refl _)
    refine hkept.add ?_ hfind' (.inl rfl)
    rw [hremoved]
    exact hq
  | changed hfound =>
    obtain ⟨p, hfind⟩ := Option.ne_none_iff_exists'.1 hfound
    rw [← hdevice] at hfind
    have hadded : (w'.live [.event (.call (.packageChanged package))]).system.agenda =
        w'.system.agenda.add package p true := by
      show (w'.system.packageChanged package).agenda = _
      unfold System.packageChanged
      rw [hfind]
      exact System.packageAdded_agenda hfind true
    rw [List.map_singleton, hadded]
    exact hspared.add hq hfind (.inl rfl)

/-- Table and schedule are in step after every run with signals. -/
theorem Signalled.enrolled {incidents : List Incident} (h : w.Signalled incidents)
    (hw : w.Orderly) (he : w.system.agenda.Enrolled none) :
    (w.live incidents).system.agenda.Enrolled none := by
  induction h with
  | done => exact he
  | @quiet w i rest hquiet _ ih =>
    exact ih (hw.meet i) ((hw.affair i).enrolled hw hquiet he)
  | signal hothers hsignal _ ih =>
    rw [live_append]
    exact ih (hw.live _) (hsignal.enrolled hw he hothers)

/-- A new engine is in step with a catalog without duplicates. -/
theorem opened_enrolled {settings : Settings} {disk : Disk} {device : Device} {s : System}
    (hnames : (device.catalog.map (·.name)).Nodup)
    (h : System.start settings disk device.fresh = .ok s) : s.agenda.Enrolled none := by
  obtain ⟨_, _, _, _, _, changed, hreconciled, hagenda⟩ := System.start_agenda h
  obtain ⟨_, _, _, _, heq⟩ := Agenda.wakeUp_eq _ changed
  rw [hagenda, heq]
  obtain ⟨hkeys, hlisted⟩ := participantsOf_listed device.catalog
  refine ⟨hkeys, fun uid package _ => (hlisted uid package).trans ?_,
    fun package p _ hcandidate => ?_⟩
  · refine exists_congr fun p => ?_
    rw [find?_name_eq_some_iff hnames, and_assoc]
  · obtain ⟨hmem, hname⟩ := (find?_name_eq_some_iff hnames).1 hcandidate.1
    refine .inl ((hreconciled.mem_packages package).2 ?_)
    exact List.mem_map.2 ⟨p, List.mem_filter.2 ⟨hmem, hcandidate.2⟩, hname⟩

/-- **Participation follows the catalog.** Where every change of the catalog is followed by its
signal, the table lists a package under an identity exactly if the catalog holds it as a participant
of that identity, hence under one identity at most, and every installed package that gets full
backups is scheduled or is being backed up by the schedule. -/
theorem participation {settings : Settings} {disk : Disk} {device : Device} {s : System}
    (hnames : (device.catalog.map (·.name)).Nodup)
    (h : System.start settings disk device.fresh = .ok s) {incidents : List Incident}
    (hrun : (opened s).Signalled incidents) :
    let s' := ((opened s).live incidents).system
    (∀ uid package, package ∈ (s'.engine.participants.lookup uid).getD .empty ↔
      ∃ p, s'.device.package? package = some p ∧ p.uid = uid ∧ p.isParticipant = true) ∧
    (∀ package uid uid', package ∈ (s'.engine.participants.lookup uid).getD .empty →
      package ∈ (s'.engine.participants.lookup uid').getD .empty → uid = uid') ∧
    ∀ package p, s'.device.package? package = some p → p.getsFullBackup = true →
      package ∈ s'.engine.schedule.packages ∨
        ∃ token, s'.engine.runningFull = some (token, package) := by
  have he := hrun.enrolled (opened_orderly h) (opened_enrolled hnames h)
  have hslot := live_slot (opened_orderly h) (opened_slot h) incidents
  intro s'
  have hlisted : ∀ uid package, package ∈ (s'.engine.participants.lookup uid).getD .empty ↔
      ∃ p, s'.device.package? package = some p ∧ p.uid = uid ∧ p.isParticipant = true :=
    fun uid package => (mem_lookup he.keys).trans (he.listed uid package nofun)
  refine ⟨hlisted, fun package uid uid' hmem hmem' => ?_, fun package p hfind hgets => ?_⟩
  · obtain ⟨p, hfind, rfl, -⟩ := (hlisted uid package).1 hmem
    obtain ⟨p', hfind', rfl, -⟩ := (hlisted uid' package).1 hmem'
    cases hfind.symm.trans hfind'
    rfl
  · exact (he.covered package p nofun ⟨hfind, hgets⟩).imp id fun hheld => hheld.running hslot

/-- The package of `deviceOfOne`, replaced under another identity. -/
def deviceOfMoved : Device := { catalog := [{ name := "app", uid := 10007, hasAgent := true }] }

/-- A second package is installed beside it, which gets full backups. -/
def deviceOfMovedAndFiles : Device :=
  { catalog := { name := "files", uid := 10002 } :: deviceOfMoved.catalog }

/-- The package is replaced. -/
def appReplaced : List Incident :=
  .event (.outside {} deviceOfMoved) ::
    [.packageRemoved "app" true, .packageAdded "app" true].map fun c => .event (.call c)

/-- The second package is installed. -/
def filesInstalled : List Incident :=
  .event (.outside {} deviceOfMovedAndFiles) ::
    [.packageAdded "files" false].map fun c => .event (.call c)

/-- A package that is replaced acts under its new identity only, and one that is installed later is
scheduled. -/
theorem participation_moved :
    ∃ s, System.start {} {} deviceOfOne.fresh = .ok s ∧
      let s' := ((opened s).live (appReplaced ++ .event .command :: (filesInstalled ++ []))).system
      "app" ∈ (s'.engine.participants.lookup 10007).getD .empty ∧
      "app" ∉ (s'.engine.participants.lookup 10001).getD .empty ∧
      ("files" ∈ s'.engine.schedule.packages ∨
        ∃ token, s'.engine.runningFull = some (token, "files")) := by
  obtain ⟨s, hstart, hfirst, hsecond, hlast⟩ := @start_decide {} {} deviceOfOne.fresh
    (fun s => s.device.catalog = deviceOfOne.catalog ∧
      ((opened s).live (appReplaced ++ [.event .command])).system.device.catalog =
        deviceOfMoved.catalog ∧
      ((opened s).live (appReplaced ++ .event .command :: filesInstalled)).system.device.catalog =
        deviceOfMovedAndFiles.catalog) inferInstance (by decide +kernel)
  have hrun : (opened s).Signalled (appReplaced ++ .event .command :: (filesInstalled ++ [])) := by
    refine .signal (fun other hother => ?_) (.replaced (by decide))
      (.quiet trivial (.signal (fun other hother => ?_) (.installed ?_ (by decide)) .done))
    · show deviceOfMoved.catalog.find? (·.name == other) = s.device.catalog.find? (·.name == other)
      rw [hfirst]
      simp [deviceOfMoved, deviceOfOne, hother.symm]
    · show deviceOfMovedAndFiles.catalog.find? (·.name == other) =
        List.find? (·.name == other)
          ((opened s).live (appReplaced ++ [.event .command])).system.device.catalog
      rw [hsecond]
      simp [deviceOfMovedAndFiles, hother.symm]
    · show List.find? (·.name == "files")
        ((opened s).live (appReplaced ++ [.event .command])).system.device.catalog = none
      rw [hsecond]
      decide
  obtain ⟨hlisted, hone, hfull⟩ := participation (by decide) hstart hrun
  have hfound : ∀ name, ((opened s).live
      (appReplaced ++ .event .command :: (filesInstalled ++ []))).system.device.package? name =
        deviceOfMovedAndFiles.package? name := by
    intro name
    unfold Device.package?
    rw [List.append_nil, hlast]
  have hmoved := (hlisted 10007 "app").2 ⟨_, (hfound "app").trans rfl, rfl, rfl⟩
  refine ⟨s, hstart, hmoved, fun hold => ?_, hfull "files" _ ((hfound "files").trans rfl) rfl⟩
  exact absurd (hone "app" 10007 10001 hmoved hold) (by decide)

end World

end Holdfast
