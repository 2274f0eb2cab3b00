import Holdfast.Proofs.Disk.Files
import Holdfast.Proofs.Record
import Holdfast.Proofs.Schedule

/-!
# The schedule file

A schedule is kept in a file of packages with the times of their last backups, and reconciled
with the packages that are eligible when it is read again.

- `Schedule.Form`: the octets that are read as a list of pairs, with
  `Schedule.decode_eq_ok_iff`: **a file is read exactly if a form stands in front**;
- `Schedule.stored`: the pairs of a file that can be read;
- `Schedule.listing`: the eligible packages, those of the file in its order and then the others;
- `Schedule.Sorts`: a stable sort by due time;
- `Schedule.ofPairs_of_ordered`: a queue in order is built anew from its own pairs;
- `Schedule.load_reconciles`: the queue that is loaded, when the file is changed by it, and that
  it is loaded again once it was saved.
-/

namespace Holdfast.Schedule

open Record

/-! ## Forms -/

/-- The part of an entry that is kept in a file. -/
def pairOf (e : ScheduleEntry) : String × Int := (e.package, e.lastBackup)

/-- Octets are read as pairs, all of them. -/
inductive Pairs : List (String × Int) → Bytes → Prop
  | nil : Pairs [] []
  | cons {package : String} {lastBackup : Int} {pairs : List (String × Int)}
      {name records : Bytes} (hname : putText package = .ok name) (hfits : Fits 8 lastBackup)
      (hrest : Pairs pairs records) :
      Pairs ((package, lastBackup) :: pairs) (name ++ putInt64 lastBackup ++ records)

/-- Octets are read as the content of a schedule file, all of them. -/
def Form (pairs : List (String × Int)) (form : Bytes) : Prop :=
  ∃ records, Pairs pairs records ∧ pairs.length < Nat.pow 2 31 ∧
    form = putInt32 version ++ putInt32 pairs.length ++ records

theorem readPairs_eq_ok_iff {file : String} {bytes : Bytes} {count : Nat}
    {pairs : List (String × Int)} : readPairs ⟨file, bytes⟩ count = .ok pairs ↔
      ∃ records extra, Pairs pairs records ∧ pairs.length = count ∧ bytes = records ++ extra := by
  induction count generalizing file bytes pairs with
  | zero =>
    constructor
    · intro h
      cases h
      exact ⟨[], bytes, .nil, rfl, rfl⟩
    · rintro ⟨records, extra, -, hlength, -⟩
      rw [List.eq_nil_of_length_eq_zero hlength]
      rfl
  | succ count ih =>
    constructor
    · intro h
      rw [readPairs] at h
      split at h
      · cases h
      · rename_i package r₁ htext
        obtain ⟨file₁, rest₁⟩ := r₁
        obtain ⟨name, hname, -, rfl⟩ := Reader.text_eq_ok_iff.1 htext
        split at h
        · cases h
        · rename_i lastBackup r₂ hint
          obtain ⟨file₂, rest₂⟩ := r₂
          obtain ⟨hfits, -, rfl⟩ := Reader.int64_eq_ok_iff.1 hint
          split at h
          · cases h
          · rename_i rest hrest
            cases h
            obtain ⟨records, extra, hrecords, rfl, rfl⟩ := ih.1 hrest
            refine ⟨_, extra, .cons hname hfits hrecords, rfl, ?_⟩
            simp only [List.append_assoc]
    · rintro ⟨records, extra, hrecords, hlength, rfl⟩
      cases hrecords with
      | nil => cases hlength
      | @cons package lastBackup pairs name records hname hfits hrest =>
        have htext : Reader.text ⟨file, name ++ (putInt64 lastBackup ++ (records ++ extra))⟩ =
            (.ok package, ⟨file, putInt64 lastBackup ++ (records ++ extra)⟩) :=
          Reader.text_eq_ok_iff.2 ⟨name, hname, rfl, rfl⟩
        have hint : Reader.int64 ⟨file, putInt64 lastBackup ++ (records ++ extra)⟩ =
            (.ok lastBackup, ⟨file, records ++ extra⟩) :=
          Reader.int64_eq_ok_iff.2 ⟨hfits, rfl, rfl⟩
        have hpairs : readPairs ⟨file, records ++ extra⟩ count = .ok pairs :=
          ih.2 ⟨records, extra, hrest, Nat.succ.inj hlength, rfl⟩
        simp only [readPairs, List.append_assoc, htext, hint, hpairs]

/-- **A file is read as pairs exactly if a form of them stands in front.** -/
theorem decode_eq_ok_iff {bytes : Bytes} {pairs : List (String × Int)} :
    decode bytes = .ok pairs ↔ ∃ form extra, Form pairs form ∧ bytes = form ++ extra := by
  constructor
  · intro h
    simp only [decode] at h
    split at h
    · cases h
    · rename_i found r₁ hversion
      obtain ⟨file₁, rest₁⟩ := r₁
      obtain ⟨-, -, rfl⟩ := Reader.int32_eq_ok_iff.1 hversion
      split at h
      · cases h
      · rename_i hfound
        split at h
        · cases h
        · rename_i count r₂ hcount
          obtain ⟨file₂, rest₂⟩ := r₂
          obtain ⟨hfits, -, rfl⟩ := Reader.int32_eq_ok_iff.1 hcount
          split at h
          · cases h
          · obtain ⟨records, extra, hrecords, hlength, rfl⟩ := readPairs_eq_ok_iff.1 h
            obtain rfl : count = pairs.length := by omega
            refine ⟨_, extra, ⟨records, hrecords, fits_count_iff.1 hfits, rfl⟩, ?_⟩
            simp only [Decidable.not_not.1 hfound, List.append_assoc]
  · rintro ⟨form, extra, ⟨records, hrecords, hfew, rfl⟩, rfl⟩
    have hversion : ∀ rest, Reader.int32 ⟨fileName, putInt32 version ++ rest⟩ =
        (.ok version, ⟨fileName, rest⟩) := fun rest =>
      Reader.int32_eq_ok_iff.2 ⟨by decide, rfl, rfl⟩
    have hcount : ∀ rest, Reader.int32 ⟨fileName, putInt32 pairs.length ++ rest⟩ =
        (.ok (pairs.length : Int), ⟨fileName, rest⟩) := fun rest =>
      Reader.int32_eq_ok_iff.2 ⟨fits_count_iff.2 hfew, rfl, rfl⟩
    have hpos : ¬ (pairs.length : Int) < 0 := by omega
    have hpairs : readPairs ⟨fileName, records ++ extra⟩ pairs.length = .ok pairs :=
      readPairs_eq_ok_iff.2 ⟨records, extra, hrecords, rfl, rfl⟩
    simp only [decode, List.append_assoc, hversion, ne_eq, not_true_eq_false, if_false, hcount,
      hpos, Int.toNat_natCast, hpairs]

theorem Pairs.unique {pairs pairs' : List (String × Int)} {records records' extra extra' : Bytes}
    (h : Pairs pairs records) (h' : Pairs pairs' records') (hlength : pairs.length = pairs'.length)
    (heq : records ++ extra = records' ++ extra') : extra = extra' := by
  induction h generalizing pairs' records' with
  | nil =>
    cases h' with
    | nil => exact heq
    | cons => cases hlength
  | cons hname hfits hrest ih =>
    cases h' with
    | nil => cases hlength
    | cons hname' hfits' hrest' =>
      simp only [List.append_assoc] at heq
      have hafter := (Reader.putText_append_inj hname hname' heq).2
      have hothers := (Reader.putInt64_append_inj hfits hfits' hafter).2
      exact ih hrest' (Nat.succ.inj hlength) hothers

theorem prefixFree_form : PrefixFree fun form => ∃ pairs, Form pairs form := by
  rintro form form' extra extra' ⟨pairs, records, hrecords, hfew, rfl⟩
    ⟨pairs', records', hrecords', hfew', rfl⟩ heq
  have hextra : extra = extra' := by
    simp only [List.append_assoc] at heq
    have hcount := (Reader.putInt32_append_inj (by decide) (by decide) heq).2
    obtain ⟨hlength, hpairs⟩ :=
      Reader.putInt32_append_inj (fits_count_iff.2 hfew) (fits_count_iff.2 hfew') hcount
    exact hrecords.unique hrecords' (by omega) hpairs
  rw [hextra] at heq
  exact List.append_cancel_right heq

/-! ## Writing -/

theorem putPairs_cons {e : ScheduleEntry} {entries : List ScheduleEntry} {bytes : Bytes}
    (h : putPairs (e :: entries) = .ok bytes) :
    ∃ name others, putText e.package = .ok name ∧ putPairs entries = .ok others ∧
      bytes = name ++ putInt64 e.lastBackup ++ others := by
  cases hname : putText e.package with
  | error fault => simp [putPairs, hname, bind, Except.bind] at h
  | ok name =>
    cases hothers : putPairs entries with
    | error fault => simp [putPairs, hname, hothers, bind, Except.bind] at h
    | ok others =>
      simp only [putPairs, hname, hothers, bind, Except.bind, pure, Except.pure,
        Except.ok.injEq] at h
      exact ⟨name, others, rfl, rfl, h.symm⟩

theorem exists_putPairs_iff {entries : List ScheduleEntry} :
    (∃ records, putPairs entries = .ok records) ↔
      ∀ e ∈ entries, Utf8.size e.package ≤ maxText := by
  induction entries with
  | nil => simp [putPairs]
  | cons e entries ih =>
    rw [List.forall_mem_cons, ← ih, ← exists_putText_iff]
    constructor
    · rintro ⟨records, h⟩
      obtain ⟨name, others, hname, hothers, -⟩ := putPairs_cons h
      exact ⟨⟨name, hname⟩, ⟨others, hothers⟩⟩
    · rintro ⟨⟨name, hname⟩, ⟨others, hothers⟩⟩
      exact ⟨name ++ putInt64 e.lastBackup ++ others,
        by simp [putPairs, hname, hothers, bind, Except.bind, pure, Except.pure]⟩

theorem pairs_of_putPairs {entries : List ScheduleEntry} {records : Bytes}
    (h : putPairs entries = .ok records) (hfits : ∀ e ∈ entries, Fits 8 e.lastBackup) :
    Pairs (entries.map pairOf) records := by
  induction entries generalizing records with
  | nil =>
    cases h
    exact .nil
  | cons e entries ih =>
    obtain ⟨he, hentries⟩ := List.forall_mem_cons.1 hfits
    obtain ⟨name, others, hname, hothers, rfl⟩ := putPairs_cons h
    exact .cons hname he (ih hothers hentries)

theorem encode_eq_ok_iff {q : Schedule} {record : Bytes} :
    q.encode = .ok record ↔ q.entries.length < Nat.pow 2 31 ∧ ∃ records,
      putPairs q.entries = .ok records ∧
      record = putInt32 version ++ putInt32 q.entries.length ++ records := by
  rw [encode]
  by_cases hfew : q.entries.length < Nat.pow 2 31
  · rw [if_pos hfew]
    cases hpairs : putPairs q.entries with
    | error fault => simp [bind, Except.bind]
    | ok records =>
      simp only [bind, Except.bind, pure, Except.pure, Except.ok.injEq, exists_eq_left']
      exact ⟨fun h => ⟨hfew, h.symm⟩, fun h => h.2.symm⟩
  · rw [if_neg hfew]
    constructor
    · intro h
      cases h
    · intro h
      exact absurd h.1 hfew

/-- What can be written: few enough packages with short enough names. -/
theorem exists_encode_iff {q : Schedule} : (∃ record, q.encode = .ok record) ↔
    q.entries.length < Nat.pow 2 31 ∧ ∀ package ∈ q.packages, Utf8.size package ≤ maxText := by
  have hnames : (∀ package ∈ q.packages, Utf8.size package ≤ maxText) ↔
      ∀ e ∈ q.entries, Utf8.size e.package ≤ maxText := by
    simp only [packages, List.mem_map, forall_exists_index, and_imp, forall_apply_eq_imp_iff₂]
  rw [hnames, ← exists_putPairs_iff]
  constructor
  · rintro ⟨record, h⟩
    obtain ⟨hfew, records, hrecords, -⟩ := encode_eq_ok_iff.1 h
    exact ⟨hfew, records, hrecords⟩
  · rintro ⟨hfew, records, hrecords⟩
    exact ⟨_, encode_eq_ok_iff.2 ⟨hfew, records, hrecords, rfl⟩⟩

theorem form_of_encode {q : Schedule} {record : Bytes} (h : q.encode = .ok record)
    (hfits : ∀ e ∈ q.entries, Fits 8 e.lastBackup) : Form (q.entries.map pairOf) record := by
  obtain ⟨hfew, records, hrecords, rfl⟩ := encode_eq_ok_iff.1 h
  refine ⟨records, pairs_of_putPairs hrecords hfits, ?_, ?_⟩
  · rw [List.length_map]
    exact hfew
  · rw [List.length_map]

/-! ## Stable sorting -/

/-- Entries are sorted by due time, and those due at one time are as listed. -/
structure Sorts (listed entries : List ScheduleEntry) : Prop where
  sorted : entries.Pairwise (fun a b => a.dueAt ≤ b.dueAt)
  stable : ∀ time, entries.filter (·.dueAt = time) = listed.filter (·.dueAt = time)

theorem Sorts.mem_iff {listed entries : List ScheduleEntry} (h : Sorts listed entries)
    {e : ScheduleEntry} : e ∈ entries ↔ e ∈ listed := by
  have hsame := h.stable e.dueAt
  have hmem : e ∈ entries.filter (·.dueAt = e.dueAt) ↔ e ∈ listed.filter (·.dueAt = e.dueAt) := by
    rw [hsame]
  simpa using hmem

/-- One more entry goes behind those due no later. -/
theorem Sorts.insert {listed entries : List ScheduleEntry} (h : Sorts listed entries)
    (e : ScheduleEntry) : Sorts (listed ++ [e]) (insertOrdered e entries) := by
  refine ⟨insertOrdered_sorted e h.sorted, fun time => ?_⟩
  obtain ⟨earlier, later, rfl, hinsert, -, hlater⟩ := insertOrdered_split e h.sorted
  have hstable := h.stable time
  rw [List.filter_append] at hstable
  rw [hinsert, List.filter_append, List.filter_append, ← hstable]
  by_cases htime : e.dueAt = time
  · have hnone : later.filter (·.dueAt = time) = [] := by
      refine List.filter_eq_nil_iff.2 fun other hother => ?_
      have := hlater other hother
      simp only [decide_eq_true_eq]
      omega
    simp [htime, hnone]
  · simp [htime]

theorem sorts_foldl (more : List ScheduleEntry) {listed entries : List ScheduleEntry}
    (h : Sorts listed entries) :
    Sorts (listed ++ more) (more.foldl (fun queue e => insertOrdered e queue) entries) := by
  induction more generalizing listed entries with
  | nil =>
    rw [List.append_nil]
    exact h
  | cons e more ih =>
    have hnext := ih (h.insert e)
    rwa [List.append_assoc] at hnext

/-- An entry that is due after all others goes to the end. -/
theorem insertOrdered_last {e : ScheduleEntry} {entries : List ScheduleEntry}
    (hsorted : (entries ++ [e]).Pairwise (fun a b => a.dueAt ≤ b.dueAt)) :
    insertOrdered e entries = entries ++ [e] := by
  obtain ⟨hentries, -, hlast⟩ := List.pairwise_append.1 hsorted
  obtain ⟨earlier, later, rfl, hinsert, -, hlater⟩ := insertOrdered_split e hentries
  have hnil : later = [] := by
    refine List.eq_nil_iff_forall_not_mem.2 fun other hother => ?_
    have hle := hlast other (List.mem_append_right _ hother) e (List.mem_singleton_self e)
    have hlt := hlater other hother
    omega
  rw [hinsert, hnil, List.append_nil]

/-! ## Reconciling -/

/-- When a package was last backed up according to the first of its pairs. -/
def lastOf (pairs : List (String × Int)) (package : String) : Int := (pairs.lookup package).getD 0

/-- The entry of a package. -/
def entryOf (interval : Nat) (pairs : List (String × Int)) (package : String) : ScheduleEntry :=
  ⟨package, lastOf pairs package, dueAfter interval (lastOf pairs package)⟩

/-- The eligible packages, each once: those that are stored in the order of the file, then the
others as given. -/
def listing (pairs : List (String × Int)) (eligible : List String) : List String :=
  ((pairs.map (·.1) ++ eligible).filter (· ∈ eligible)).eraseDups

theorem mem_listing {pairs : List (String × Int)} {eligible : List String} {package : String} :
    package ∈ listing pairs eligible ↔ package ∈ eligible := by
  rw [listing, List.mem_eraseDups, List.mem_filter, List.mem_append]
  simp only [decide_eq_true_eq]
  exact ⟨fun h => h.2, fun h => ⟨.inr h, h⟩⟩

/-- The first pairs are those of the packages in the order of their first mention. -/
theorem firstPairs_eq (seen : List String) (pairs : List (String × Int)) :
    firstPairs seen pairs = ((pairs.map (·.1)).filter (· ∉ seen)).eraseDups.map
      fun package => (package, lastOf pairs package) := by
  induction pairs generalizing seen with
  | nil => rfl
  | cons pair pairs ih =>
    obtain ⟨package, lastBackup⟩ := pair
    -- no package but the first has its pair in front
    have hrest : ∀ names : List String, package ∉ names →
        names.map (fun name => (name, lastOf ((package, lastBackup) :: pairs) name)) =
          names.map fun name => (name, lastOf pairs name) := by
      intro names hnot
      refine List.map_congr_left fun name hname => ?_
      have hne : (name == package) = false := by
        rw [beq_eq_false_iff_ne]
        rintro rfl
        exact hnot hname
      simp only [lastOf, List.lookup_cons, hne]
    by_cases hseen : package ∈ seen
    · have hnot : package ∉ ((pairs.map (·.1)).filter (· ∉ seen)).eraseDups := by
        simp [List.mem_eraseDups, hseen]
      simp only [firstPairs, List.contains_iff_mem, hseen, if_true, ih, List.map_cons,
        not_true_eq_false, decide_false, Bool.false_eq_true, not_false_eq_true,
        List.filter_cons_of_neg, hrest _ hnot]
    · have hfilter : ((pairs.map (·.1)).filter (· ∉ seen)).filter (fun b => !b == package) =
          (pairs.map (·.1)).filter (· ∉ package :: seen) := by
        rw [List.filter_filter]
        refine List.filter_congr fun name _ => ?_
        by_cases hname : name = package <;> simp [hname]
      have hnot : package ∉ ((pairs.map (·.1)).filter (· ∉ package :: seen)).eraseDups := by
        simp [List.mem_eraseDups]
      have hself : lastOf ((package, lastBackup) :: pairs) package = lastBackup := by
        simp [lastOf]
      simp only [firstPairs, List.contains_iff_mem, hseen, if_false, ih, List.map_cons,
        not_false_eq_true, decide_true, List.filter_cons_of_pos, List.eraseDups_cons, hfilter,
        hself, hrest _ hnot]

theorem eraseDups_reconcile (pairs : List (String × Int)) (eligible : List String) :
    ((reconcile pairs eligible).map (·.1)).eraseDups = listing pairs eligible := by
  have hnames : (reconcile pairs eligible).map (·.1) =
      (pairs.map (·.1)).filter (· ∈ eligible) ++ eligible.filter (· ∉ pairs.map (·.1)) := by
    simp [reconcile, List.filter_map, Function.comp_def]
  have hall : eligible.filter (· ∈ eligible) = eligible :=
    List.filter_eq_self.2 fun package h => decide_eq_true h
  rw [hnames, listing, List.filter_append, hall, List.eraseDups_append, List.eraseDups_append]
  -- of the eligible packages both leave those that are stored
  have hothers : (eligible.filter (· ∉ pairs.map (·.1))).removeAll
        ((pairs.map (·.1)).filter (· ∈ eligible)) =
      eligible.removeAll ((pairs.map (·.1)).filter (· ∈ eligible)) := by
    rw [List.removeAll, List.removeAll, List.filter_filter]
    refine List.filter_congr fun package hpackage => ?_
    by_cases hstored : package ∈ pairs.map (·.1)
    · simp [hstored, hpackage]
    · simp [hstored]
  rw [hothers]

theorem lookup_eligible (pairs : List (String × Int)) {eligible : List String} {package : String}
    (h : package ∈ eligible) :
    (pairs.filter fun pair => eligible.contains pair.1).lookup package = pairs.lookup package := by
  induction pairs with
  | nil => rfl
  | cons pair pairs ih =>
    obtain ⟨name, lastBackup⟩ := pair
    by_cases hname : package = name
    · subst hname
      rw [List.filter_cons_of_pos (by simpa using h), List.lookup_cons_self, List.lookup_cons_self]
    · have hne : (package == name) = false := beq_eq_false_iff_ne.2 hname
      rw [List.filter_cons]
      split
      · rw [List.lookup_cons, List.lookup_cons, hne]
        exact ih
      · rw [List.lookup_cons, hne]
        exact ih

theorem lookup_never (names : List String) (package : String) :
    ((names.map (·, (0 : Int))).lookup package).getD 0 = 0 := by
  induction names with
  | nil => rfl
  | cons name names ih =>
    rw [List.map_cons, List.lookup_cons]
    cases package == name with
    | true => rfl
    | false => exact ih

theorem lastOf_reconcile (pairs : List (String × Int)) {eligible : List String} {package : String}
    (h : package ∈ eligible) :
    lastOf (reconcile pairs eligible) package = lastOf pairs package := by
  rw [lastOf, reconcile, List.lookup_append, lookup_eligible pairs h, lastOf]
  cases pairs.lookup package with
  | some lastBackup => rfl
  | none =>
    rw [Option.none_or, lookup_never]
    rfl

/-- The queue of a file holds the eligible packages as listed, sorted by due time. -/
theorem sorts_reconcile (interval : Nat) (pairs : List (String × Int)) (eligible : List String) :
    Sorts ((listing pairs eligible).map (entryOf interval pairs))
      (ofPairs interval (reconcile pairs eligible)).entries := by
  have hentries : (firstPairs [] (reconcile pairs eligible)).map
        (fun pair => (new interval).entryFor pair.1 pair.2) =
      (listing pairs eligible).map (entryOf interval pairs) := by
    have hnew : (((reconcile pairs eligible).map (·.1)).filter (· ∉ [])) =
        (reconcile pairs eligible).map (·.1) :=
      List.filter_eq_self.2 fun package _ => by simp
    rw [firstPairs_eq, hnew, eraseDups_reconcile, List.map_map]
    refine List.map_congr_left fun package hpackage => ?_
    rw [Function.comp_apply, entryFor_new, lastOf_reconcile pairs (mem_listing.1 hpackage)]
    rfl
  have hsorts := sorts_foldl ((listing pairs eligible).map (entryOf interval pairs))
    (⟨.nil, fun _ => rfl⟩ : Sorts [] [])
  rw [ofPairs, hentries]
  exact hsorts

theorem entries_ofPairs {interval : Nat} {entries : List ScheduleEntry}
    (hnodup : (entries.map (·.package)).Nodup)
    (hsorted : entries.Pairwise (fun a b => a.dueAt ≤ b.dueAt))
    (hdue : ∀ e ∈ entries, e.dueAt = dueAfter interval e.lastBackup) :
    (ofPairs interval (entries.map pairOf)).entries = entries := by
  induction entries using List.reverseRecOn with
  | nil => rfl
  | append_singleton entries e ih =>
    rw [List.map_append, List.nodup_append] at hnodup
    obtain ⟨hnodup₁, -, hdisjoint⟩ := hnodup
    have hnew : (pairOf e).1 ∉ (entries.map pairOf).map (·.1) := by
      intro hmem
      rw [List.map_map] at hmem
      exact hdisjoint e.package hmem e.package (List.mem_singleton_self _) rfl
    have hlast : (new interval).entryFor (pairOf e).1 (pairOf e).2 = e := by
      rw [entryFor_new, pairOf, ← hdue e (List.mem_append_right _ (List.mem_singleton_self e))]
    have hfirst := ih hnodup₁ (List.pairwise_append.1 hsorted).1 fun other hother =>
      hdue other (List.mem_append_left _ hother)
    rw [List.map_append, List.map_singleton, ofPairs_concat, if_neg hnew, hlast, hfirst]
    exact insertOrdered_last hsorted

/-- **A queue in order is built anew from its own pairs.** -/
theorem ofPairs_of_ordered {interval : Nat} {q : Schedule} (h : Ordered interval q)
    (hdue : ∀ e ∈ q.entries, e.dueAt = dueAfter interval e.lastBackup) :
    ofPairs interval (q.entries.map pairOf) = q := by
  obtain ⟨step, entries⟩ := q
  have hentries := entries_ofPairs h.nodup h.sorted hdue
  have hstep : (ofPairs interval (entries.map pairOf)).interval = step := h.interval.symm
  calc ofPairs interval (entries.map pairOf)
      = ⟨(ofPairs interval (entries.map pairOf)).interval,
          (ofPairs interval (entries.map pairOf)).entries⟩ := rfl
    _ = ⟨step, entries⟩ := by rw [hentries, hstep]

theorem isCurrent_iff {pairs : List (String × Int)} {eligible : List String} :
    isCurrent pairs eligible = true ↔
      ∀ package, package ∈ pairs.map (·.1) ↔ package ∈ eligible := by
  rw [isCurrent, Bool.and_eq_true, List.all_eq_true, List.all_eq_true]
  constructor
  · rintro ⟨hstored, heligible⟩ package
    constructor
    · intro hmem
      obtain ⟨pair, hpair, rfl⟩ := List.mem_map.1 hmem
      exact List.contains_iff_mem.1 (hstored pair hpair)
    · intro hmem
      exact List.contains_iff_mem.1 (heligible package hmem)
  · intro h
    constructor
    · intro pair hpair
      exact List.contains_iff_mem.2 ((h pair.1).1 (List.mem_map_of_mem hpair))
    · intro package hpackage
      exact List.contains_iff_mem.2 ((h package).2 hpackage)

/-- A file of the eligible packages is taken as it is. -/
theorem reconcile_current {pairs : List (String × Int)} {eligible : List String}
    (h : ∀ package, package ∈ pairs.map (·.1) ↔ package ∈ eligible) :
    reconcile pairs eligible = pairs := by
  have hkept : pairs.filter (fun pair => eligible.contains pair.1) = pairs := by
    refine List.filter_eq_self.2 fun pair hpair => ?_
    exact List.contains_iff_mem.2 ((h pair.1).1 (List.mem_map_of_mem hpair))
  have hnone : eligible.filter (fun package => !(pairs.map (·.1)).contains package) = [] := by
    refine List.filter_eq_nil_iff.2 fun package hpackage => ?_
    have hmem := List.contains_iff_mem.2 ((h package).2 hpackage)
    rw [hmem]
    decide
  rw [reconcile, hkept, hnone, List.map_nil, List.append_nil]

/-! ## Files -/

/-- The pairs of a file that is there and can be read. -/
def stored (d : Disk) (path : Path) : Option (List (String × Int)) :=
  match d.look path with
  | .file bytes => (decode bytes).toOption
  | _ => none

theorem stored_eq_some_iff {d : Disk} {path : Path} {pairs : List (String × Int)} :
    stored d path = some pairs ↔ ∃ bytes, d.look path = .file bytes ∧ decode bytes = .ok pairs := by
  unfold stored
  cases d.look path with
  | file bytes =>
    cases hdecode : decode bytes with
    | error fault => simp [hdecode, Except.toOption]
    | ok found => simp [hdecode, Except.toOption]
  | missing => simp
  | folder => simp
  | blocked => simp

theorem Pairs.fits {pairs : List (String × Int)} {records : Bytes} (h : Pairs pairs records) :
    ∀ pair ∈ pairs, Fits 8 pair.2 := by
  induction h with
  | nil => simp
  | cons _ hfits _ ih => exact List.forall_mem_cons.2 ⟨hfits, ih⟩

/-- The times of a file fit into a file. -/
theorem fits_lastOf_stored (d : Disk) (path : Path) (package : String) :
    Fits 8 (lastOf ((stored d path).getD []) package) := by
  cases hstored : stored d path with
  | none => exact show Fits 8 0 by decide
  | some pairs =>
    obtain ⟨bytes, -, hdecode⟩ := stored_eq_some_iff.1 hstored
    obtain ⟨form, extra, ⟨records, hrecords, -⟩, -⟩ := decode_eq_ok_iff.1 hdecode
    rw [Option.getD_some, lastOf]
    cases hlookup : pairs.lookup package with
    | none => exact show Fits 8 0 by decide
    | some lastBackup =>
      obtain ⟨before, behind, rfl, -⟩ := List.lookup_eq_some_iff.1 hlookup
      exact hrecords.fits (package, lastBackup) (by simp)

/-- Loading takes the pairs of a file that can be read, and deletes one that cannot. -/
theorem load_cases (d : Disk) (path : Path) (interval : Nat) (eligible : List String) :
    (∃ pairs, stored d path = some pairs ∧ load d path interval eligible =
      (⟨ofPairs interval (reconcile pairs eligible), !isCurrent pairs eligible⟩, d)) ∨
    (stored d path = none ∧ load d path interval eligible =
      (⟨ofPairs interval (reconcile [] eligible), true⟩,
        if d.look path = .missing then d else (Store.remove d path).2)) := by
  unfold load readFile Store.read Disk.readFile stored
  cases hlook : d.look path with
  | file bytes =>
    cases hdecode : decode bytes with
    | ok pairs => exact .inl ⟨pairs, by simp [Store.toFault, hdecode, Except.map, Except.toOption]⟩
    | error fault => exact .inr (by simp [Store.toFault, hdecode, Except.map, Except.toOption])
  | missing => exact .inr ⟨rfl, rfl⟩
  | folder => exact .inr ⟨rfl, rfl⟩
  | blocked => exact .inr ⟨rfl, rfl⟩

/-- The queue that is loaded, whether or not the file can be read. -/
theorem load_queue (d : Disk) (path : Path) (interval : Nat) (eligible : List String) :
    (load d path interval eligible).1.queue =
      ofPairs interval (reconcile ((stored d path).getD []) eligible) := by
  rcases load_cases d path interval eligible with ⟨pairs, hstored, hload⟩ | ⟨hstored, hload⟩
  · rw [hload, hstored]
    rfl
  · rw [hload, hstored]
    rfl

theorem load_changed (d : Disk) (path : Path) (interval : Nat) (eligible : List String) :
    (load d path interval eligible).1.changed = false ↔ ∃ pairs, stored d path = some pairs ∧
      ∀ package, package ∈ pairs.map (·.1) ↔ package ∈ eligible := by
  rcases load_cases d path interval eligible with ⟨pairs, hstored, hload⟩ | ⟨hstored, hload⟩
  · rw [hload, hstored]
    show (!isCurrent pairs eligible) = false ↔ _
    rw [Bool.not_eq_false', isCurrent_iff]
    simp only [Option.some.injEq, exists_eq_left']
  · rw [hload, hstored]
    simp

/-- A file that is read stays, one that cannot be read is deleted. -/
theorem load_file {d : Disk} {path : Path} {bytes : Bytes} (h : d.look path = .file bytes)
    (interval : Nat) (eligible : List String) :
    ((load d path interval eligible).2.look path = .missing ↔
      ∀ pairs, decode bytes ≠ .ok pairs) := by
  rcases load_cases d path interval eligible with ⟨pairs, hstored, hload⟩ | ⟨hstored, hload⟩
  · obtain ⟨found, hfile, hdecode⟩ := stored_eq_some_iff.1 hstored
    obtain rfl : bytes = found := Sight.file.inj (h.symm.trans hfile)
    rw [hload, h]
    exact ⟨nofun, fun hnot => absurd hdecode (hnot pairs)⟩
  · rw [hload, if_neg (by rw [h]; nofun)]
    constructor
    · intro _ pairs hdecode
      rw [stored_eq_some_iff.2 ⟨bytes, h, hdecode⟩] at hstored
      cases hstored
    · intro _
      exact Disk.removeFile_of_file h

theorem load_quiet {d : Disk} {path : Path}
    (h : d.look path = .missing ∨ ∃ pairs, stored d path = some pairs) (interval : Nat)
    (eligible : List String) : (load d path interval eligible).2 = d := by
  rcases load_cases d path interval eligible with ⟨pairs, -, hload⟩ | ⟨hstored, hload⟩
  · rw [hload]
  · rw [hload]
    rcases h with hmissing | ⟨pairs, hpairs⟩
    · rw [if_pos hmissing]
    · rw [hstored] at hpairs
      cases hpairs

/-! ## The loaded queue -/

/-- A queue holds the eligible packages with the times of a file. -/
structure Reconciled (interval : Nat) (pairs : List (String × Int)) (eligible : List String)
    (q : Schedule) : Prop where
  ordered : Ordered interval q
  sorts : Sorts ((listing pairs eligible).map (entryOf interval pairs)) q.entries

theorem reconciled_load {d d' : Disk} {path : Path} {interval : Nat} {eligible : List String}
    {loaded : Loaded} (h : load d path interval eligible = (loaded, d')) :
    Reconciled interval ((stored d path).getD []) eligible loaded.queue := by
  have hqueue := load_queue d path interval eligible
  rw [h] at hqueue
  have hqueue : loaded.queue = ofPairs interval (reconcile ((stored d path).getD []) eligible) :=
    hqueue
  rw [hqueue]
  exact ⟨ofPairs_ordered _ _, sorts_reconcile _ _ _⟩

namespace Reconciled

variable {interval : Nat} {pairs : List (String × Int)} {eligible : List String} {q : Schedule}

theorem entry (h : Reconciled interval pairs eligible q) {e : ScheduleEntry} (he : e ∈ q.entries) :
    e = entryOf interval pairs e.package := by
  obtain ⟨package, -, rfl⟩ := List.mem_map.1 (h.sorts.mem_iff.1 he)
  rfl

theorem mem_packages (h : Reconciled interval pairs eligible q) (package : String) :
    package ∈ q.packages ↔ package ∈ eligible := by
  rw [packages, List.mem_map, ← @mem_listing pairs]
  constructor
  · rintro ⟨e, he, rfl⟩
    obtain ⟨package, hpackage, rfl⟩ := List.mem_map.1 (h.sorts.mem_iff.1 he)
    exact hpackage
  · intro hpackage
    exact ⟨entryOf interval pairs package,
      h.sorts.mem_iff.2 (List.mem_map_of_mem hpackage), rfl⟩

/-- The file of such a queue holds its pairs. -/
theorem form (h : Reconciled interval pairs eligible q)
    (hfits : ∀ package, Fits 8 (lastOf pairs package)) {record : Bytes}
    (hrecord : q.encode = .ok record) : Form (q.entries.map pairOf) record := by
  refine form_of_encode hrecord fun e he => ?_
  rw [h.entry he]
  exact hfits e.package

/-- Such a queue is loaded from its own pairs as it is. -/
theorem load_again (h : Reconciled interval pairs eligible q) {d : Disk} {path : Path}
    (hstored : stored d path = some (q.entries.map pairOf)) :
    load d path interval eligible = (⟨q, false⟩, d) := by
  have hcurrent : ∀ package, package ∈ (q.entries.map pairOf).map (·.1) ↔ package ∈ eligible := by
    intro package
    rw [← h.mem_packages package, List.map_map]
    rfl
  have hdue : ∀ e ∈ q.entries, e.dueAt = dueAfter interval e.lastBackup := by
    intro e he
    rw [h.entry he]
    rfl
  rcases load_cases d path interval eligible with ⟨found, hfound, hload⟩ | ⟨hnone, -⟩
  · obtain rfl : q.entries.map pairOf = found := Option.some.inj (hstored.symm.trans hfound)
    rw [hload, reconcile_current hcurrent, ofPairs_of_ordered h.ordered hdue,
      isCurrent_iff.2 hcurrent]
    rfl
  · rw [hstored] at hnone
    cases hnone

end Reconciled

/-- **The schedule file.** Whatever the file holds, the queue that is loaded has one entry for each
eligible package, with the time of its first record, sorted by due time with the packages of the
file before the others; it counts as unchanged exactly if the file is one of the eligible
packages, and a file is deleted exactly if it cannot be read. Once a queue that was loaded is
saved, it is loaded again as it is, and no part of its file can be read. -/
theorem load_reconciles {d d' : Disk} {path : Path} {interval : Nat} {eligible : List String}
    {q : Schedule} {changed : Bool}
    (h : load d path interval eligible = (⟨q, changed⟩, d')) :
    q.packages.Nodup ∧ (∀ package, package ∈ q.packages ↔ package ∈ eligible) ∧
    (∀ e ∈ q.entries, e = entryOf interval ((stored d path).getD []) e.package) ∧
    Sorts ((listing ((stored d path).getD []) eligible).map
      (entryOf interval ((stored d path).getD []))) q.entries ∧
    (changed = false ↔ ∃ pairs, stored d path = some pairs ∧
      ∀ package, package ∈ pairs.map (·.1) ↔ package ∈ eligible) ∧
    (∀ bytes, d.look path = .file bytes →
      (d'.look path = .missing ↔ ∀ pairs, decode bytes ≠ .ok pairs)) ∧
    (d.look path = .missing ∨ (∃ pairs, stored d path = some pairs) → d' = d) ∧
    ((∃ record, q.encode = .ok record) ↔
      q.entries.length < Nat.pow 2 31 ∧ ∀ package ∈ q.packages, Utf8.size package ≤ maxText) ∧
    (∀ record, q.encode = .ok record →
      (∀ (d₀ : Disk) (place : Path), d₀.Replaceable place →
        ∃ d₁, q.save d₀ place = (.ok (), d₁)) ∧
      (∀ (d₀ d₁ : Disk) (place : Path), q.save d₀ place = (.ok (), d₁) →
        load d₁ place interval eligible = (⟨q, false⟩, d₁)) ∧
      ∀ cut, cut <+: record → cut ≠ record → ∀ pairs, decode cut ≠ .ok pairs) := by
  have hreconciled : Reconciled interval ((stored d path).getD []) eligible q := reconciled_load h
  have hfits := fits_lastOf_stored d path
  have hchanged := load_changed d path interval eligible
  have hfile := fun bytes (hbytes : d.look path = .file bytes) =>
    load_file hbytes interval eligible
  have hquiet := fun hstay => @load_quiet d path hstay interval eligible
  rw [h] at hchanged hfile hquiet
  refine ⟨hreconciled.ordered.nodup, hreconciled.mem_packages, fun e he => hreconciled.entry he,
    hreconciled.sorts, hchanged, hfile, hquiet, exists_encode_iff,
    fun record hrecord => ⟨?_, ?_, ?_⟩⟩
  · intro d₀ place hplace
    rw [save, hrecord]
    exact Store.replace_of_replaceable hplace record
  · intro d₀ d₁ place hsave
    rw [save] at hsave
    obtain ⟨kept, hkept, hlook⟩ := Store.replace_ok hsave
    have hform := hreconciled.form hfits hkept
    refine hreconciled.load_again (stored_eq_some_iff.2 ⟨kept, hlook, ?_⟩)
    exact decode_eq_ok_iff.2 ⟨kept, [], hform, (List.append_nil kept).symm⟩
  · intro cut hcut hne pairs hdecode
    obtain ⟨form, extra, hform, hfront⟩ := decode_eq_ok_iff.1 hdecode
    have hwhole := hreconciled.form hfits hrecord
    exact prefixFree_form.not_in_part ⟨_, hwhole⟩ hcut hne ⟨pairs, hform⟩ extra hfront

/-- A file that lists one package twice. -/
def listedTwice : Disk :=
  { nodes := [([fileName], .file ([0, 0, 0, 1, 0, 0, 0, 2] ++
      [0, 5, 99, 111, 109, 46, 98, 0, 0, 0, 0, 0, 0, 0, 5] ++
      [0, 5, 99, 111, 109, 46, 98, 0, 0, 0, 0, 0, 0, 0, 9]))] }

/-- The queue of that file when another package is eligible as well. -/
def oneAdded : Schedule := ⟨100, [⟨"com.a", 0, 0⟩, ⟨"com.b", 5, 105⟩]⟩

theorem load_reconciles_listedTwice :
    load listedTwice [fileName] 100 ["com.a", "com.b"] = (⟨oneAdded, true⟩, listedTwice) ∧
      (∀ package, package ∈ oneAdded.packages ↔ package ∈ ["com.a", "com.b"]) ∧
      ∃ record, oneAdded.encode = .ok record ∧
        ∀ cut, cut <+: record → cut ≠ record → ∀ pairs, decode cut ≠ .ok pairs := by
  have hload : load listedTwice [fileName] 100 ["com.a", "com.b"] =
      (⟨oneAdded, true⟩, listedTwice) := by
    have hstored : stored listedTwice [fileName] = some [("com.b", 5), ("com.b", 9)] := by
      decide +kernel
    have hqueue : ofPairs 100 (reconcile [("com.b", 5), ("com.b", 9)] ["com.a", "com.b"]) =
        oneAdded := by decide +kernel
    rcases load_cases listedTwice [fileName] 100 ["com.a", "com.b"] with
      ⟨pairs, hpairs, hload⟩ | ⟨hnone, -⟩
    · obtain rfl := Option.some.inj (hstored.symm.trans hpairs)
      rw [hload, hqueue]
      rfl
    · rw [hstored] at hnone
      cases hnone
  obtain ⟨-, hmem, -, -, -, -, -, hencode, hagain⟩ := load_reconciles hload
  obtain ⟨record, hrecord⟩ := hencode.2 ⟨by decide, by decide⟩
  exact ⟨hload, hmem, record, hrecord, (hagain record hrecord).2.2⟩

end Holdfast.Schedule
