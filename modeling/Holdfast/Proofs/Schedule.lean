import Holdfast.Schedule
import Mathlib.Data.List.Induction
import Mathlib.Data.List.Nodup
import Mathlib.Data.List.TakeWhile

/-!
# The schedule is an ordered map

A queue of packages is changed by entering, deferring and removing packages. Whatever the
history, it stays a map from packages to entries that is listed by due time.

- `Schedule.Change`: one change; `Schedule.after`: several of them;
- `Schedule.Ordered`: one entry per package, by due time, and nothing due before the epoch. The
  last clause is what lets a package that was never backed up go to the front unseen;
- `Schedule.insertOrdered_split`: where an entry is inserted;
- `Schedule.mem_apply`: what a change does to the map;
- `Schedule.after_ordered_map`: **after every history the queue is in order and holds, for each
  package, its last entry unless that was taken out**.
-/

namespace Holdfast.Schedule

/-- When a package backed up at `lastBackup` is due again: at once if it never was, else after
the interval, but no later than times go. -/
def dueAfter (interval : Nat) (lastBackup : Int) : Int :=
  if lastBackup ≤ 0 then 0 else min maxI64 (lastBackup + min (interval : Int) maxI64)

/-- A change of a queue. -/
inductive Change where
  | enqueue (package : String) (lastBackup : Int)
  | defer (package : String) (lastBackup dueAt : Int)
  | dequeue (package : String)
  | dequeueHead
  deriving DecidableEq

namespace Change

/-- The queue after a change. -/
def apply (q : Schedule) : Change → Schedule
  | .enqueue package lastBackup => q.enqueue package lastBackup
  | .defer package lastBackup dueAt => q.defer package lastBackup dueAt
  | .dequeue package => q.dequeue package
  | .dequeueHead => q.dequeueHead

/-- The entry that a change inserts. -/
def entry? (interval : Nat) : Change → Option ScheduleEntry
  | .enqueue package lastBackup => some ⟨package, lastBackup, dueAfter interval lastBackup⟩
  | .defer package lastBackup dueAt => some ⟨package, lastBackup, dueAt⟩
  | .dequeue _ | .dequeueHead => none

/-- The package that a change inserts or takes out. -/
def touched? (q : Schedule) : Change → Option String
  | .enqueue package _ | .defer package _ _ | .dequeue package => some package
  | .dequeueHead => q.head?.map (·.package)

/-- Whether a change inserts a package that was never backed up, ahead of all others. -/
def goesFirst : Change → Bool
  | .enqueue _ lastBackup => lastBackup ≤ 0
  | .defer _ _ _ | .dequeue _ | .dequeueHead => false

/-- No package is deferred to a time before the epoch. -/
def Valid : Change → Prop
  | .defer _ _ dueAt => 0 ≤ dueAt
  | .enqueue _ _ | .dequeue _ | .dequeueHead => True

end Change

/-- The queue after several changes. -/
def after (q : Schedule) (changes : List Change) : Schedule := changes.foldl Change.apply q

/-- No change inserts or takes out a package. -/
def Spared (q : Schedule) (package : String) : List Change → Prop
  | [] => True
  | change :: rest => change.touched? q ≠ some package ∧ (change.apply q).Spared package rest

/-- An entry is the last one of its package: inserted by a change or listed at the beginning,
and since then the package was neither inserted again nor taken out. -/
def LastEntry (interval : Nat) (pairs : List (String × Int)) (changes : List Change)
    (e : ScheduleEntry) : Prop :=
  (∃ before change later, changes = before ++ change :: later ∧
      change.entry? interval = some e ∧
      ((ofPairs interval pairs).after (before ++ [change])).Spared e.package later) ∨
    (pairs.find? (·.1 == e.package) = some (e.package, e.lastBackup) ∧
      e.dueAt = dueAfter interval e.lastBackup ∧
      (ofPairs interval pairs).Spared e.package changes)

/-- An entry was inserted in place of earlier ones of its package. The others keep their order,
and it stands behind those due no later, unless it goes ahead of all. -/
def Placed (e : ScheduleEntry) (first : Bool) (before after : List ScheduleEntry) : Prop :=
  ∃ earlier later, after = earlier ++ e :: later ∧
    earlier ++ later = before.filter (fun other => other.package ≠ e.package) ∧
    if first then earlier = []
    else (∀ other ∈ earlier, other.dueAt ≤ e.dueAt) ∧ ∀ other ∈ later, e.dueAt < other.dueAt

/-- A queue in order. -/
structure Ordered (interval : Nat) (q : Schedule) : Prop where
  interval : q.interval = min (interval : Int) maxI64
  nodup : (q.entries.map (·.package)).Nodup
  sorted : q.entries.Pairwise (fun a b => a.dueAt ≤ b.dueAt)
  nonneg : ∀ e ∈ q.entries, 0 ≤ e.dueAt

/-! ## Inserting an entry -/

/-- An entry goes between those due no later and those due later. -/
theorem insertOrdered_split (e : ScheduleEntry) {entries : List ScheduleEntry}
    (hsorted : entries.Pairwise (fun a b => a.dueAt ≤ b.dueAt)) :
    ∃ earlier later, entries = earlier ++ later ∧
      insertOrdered e entries = earlier ++ e :: later ∧
      (∀ other ∈ earlier, other.dueAt ≤ e.dueAt) ∧ ∀ other ∈ later, e.dueAt < other.dueAt := by
  generalize hback : entries.reverse = back
  have hwhole : entries = (back.dropWhile (fun other => e.dueAt < other.dueAt)).reverse ++
      (back.takeWhile (fun other => e.dueAt < other.dueAt)).reverse := by
    rw [← List.reverse_append, List.takeWhile_append_dropWhile, ← hback, List.reverse_reverse]
  refine ⟨_, _, hwhole, by rw [insertOrdered, hback], ?_, ?_⟩
  · intro other hother
    rw [hwhole] at hsorted
    -- the last of them stopped the search, and nobody before it is due later
    cases hdrop : back.dropWhile (fun other => e.dueAt < other.dueAt) with
    | nil =>
      rw [hdrop] at hother
      cases hother
    | cons last rest =>
      have hlast : last.dueAt ≤ e.dueAt := by
        have hstop := List.head?_dropWhile_not (fun other => decide (e.dueAt < other.dueAt)) back
        simp only [hdrop, List.head?_cons, decide_eq_false_iff_not] at hstop
        omega
      rw [hdrop] at hother hsorted
      have hsorted' := (List.pairwise_append.1 hsorted).1
      rw [List.reverse_cons] at hother hsorted'
      rcases List.mem_append.1 hother with hmem | hmem
      · have hle : other.dueAt ≤ last.dueAt :=
          (List.pairwise_append.1 hsorted').2.2 other hmem last (List.mem_singleton_self last)
        omega
      · rw [List.mem_singleton.1 hmem]
        exact hlast
  · intro other hother
    simpa using List.mem_takeWhile_imp (List.mem_reverse.1 hother)

theorem insertOrdered_perm (e : ScheduleEntry) (entries : List ScheduleEntry) :
    (insertOrdered e entries).Perm (e :: entries) := by
  have hwhole : (entries.reverse.takeWhile (fun x => e.dueAt < x.dueAt) ++
      entries.reverse.dropWhile (fun x => e.dueAt < x.dueAt)).Perm entries := by
    rw [List.takeWhile_append_dropWhile]
    exact List.reverse_perm entries
  refine List.perm_middle.trans (List.Perm.cons e ?_)
  exact ((List.reverse_perm _).append (List.reverse_perm _)).trans
    (List.perm_append_comm.trans hwhole)

/-- An entry that takes the place of an earlier one of its package. -/
theorem insertOrdered_placed (e : ScheduleEntry) {entries : List ScheduleEntry}
    (hsorted : entries.Pairwise (fun a b => a.dueAt ≤ b.dueAt)) :
    Placed e false entries
      (insertOrdered e (entries.filter (fun other => other.package ≠ e.package))) := by
  obtain ⟨earlier, later, hsplit, hinsert, hearlier, hlater⟩ :=
    insertOrdered_split e (hsorted.filter (fun other => other.package ≠ e.package))
  exact ⟨earlier, later, hinsert, hsplit.symm, hearlier, hlater⟩

/-- Entries by due time stay so when one is inserted. -/
theorem insertOrdered_sorted (e : ScheduleEntry) {entries : List ScheduleEntry}
    (hsorted : entries.Pairwise (fun a b => a.dueAt ≤ b.dueAt)) :
    (insertOrdered e entries).Pairwise (fun a b => a.dueAt ≤ b.dueAt) := by
  obtain ⟨earlier, later, rfl, hinsert, hearlier, hlater⟩ := insertOrdered_split e hsorted
  obtain ⟨hsorted₁, hsorted₂, hacross⟩ := List.pairwise_append.1 hsorted
  rw [hinsert]
  refine List.pairwise_append.2 ⟨hsorted₁, List.pairwise_cons.2 ⟨?_, hsorted₂⟩, ?_⟩
  · intro other hother
    have := hlater other hother
    omega
  · intro a ha b hb
    rcases List.mem_cons.1 hb with rfl | hb
    · exact hearlier a ha
    · exact hacross a ha b hb

/-! ## Single changes -/

/-- With one entry per package, taking the first one out takes all of them out. -/
theorem eraseP_package {entries : List ScheduleEntry} (hnodup : (entries.map (·.package)).Nodup)
    (package : String) :
    entries.eraseP (·.package == package) = entries.filter (fun e => e.package ≠ package) := by
  induction entries with
  | nil => rfl
  | cons e rest ih =>
    obtain ⟨hfresh, hrest⟩ := List.nodup_cons.1 hnodup
    by_cases h : e.package = package
    · have hothers : ∀ other ∈ rest, other.package ≠ package := by
        intro other hother heq
        exact hfresh (List.mem_map.2 ⟨other, hother, heq.trans h.symm⟩)
      rw [List.eraseP_cons_of_pos (by simpa using h), List.filter_cons_of_neg (by simpa using h),
        List.filter_eq_self.2 (by simpa using hothers)]
    · rw [List.eraseP_cons_of_neg (by simpa using h), List.filter_cons_of_pos (by simpa using h),
        ih hrest]

theorem dueAfter_nonneg (interval : Nat) (lastBackup : Int) : 0 ≤ dueAfter interval lastBackup := by
  have : (0 : Int) ≤ maxI64 := by decide
  unfold dueAfter
  split <;> omega

namespace Ordered

variable {interval : Nat} {q : Schedule}

theorem dequeue_entries (h : Ordered interval q) (package : String) :
    (q.dequeue package).entries = q.entries.filter (fun e => e.package ≠ package) :=
  eraseP_package h.nodup package

/-- Fewer entries are still in order. -/
theorem sublist (h : Ordered interval q) {entries : List ScheduleEntry}
    (hsub : entries.Sublist q.entries) : Ordered interval { q with entries } where
  interval := h.interval
  nodup := h.nodup.sublist (hsub.map _)
  sorted := h.sorted.sublist hsub
  nonneg := fun e he => h.nonneg e (hsub.subset he)

theorem dequeue (h : Ordered interval q) (package : String) :
    Ordered interval (q.dequeue package) :=
  h.sublist List.eraseP_sublist

/-- A new package is inserted behind those due no later. -/
theorem insert (h : Ordered interval q) {e : ScheduleEntry} (hnonneg : 0 ≤ e.dueAt)
    (hfresh : e.package ∉ q.entries.map (·.package)) :
    Ordered interval { q with entries := insertOrdered e q.entries } where
  interval := h.interval
  nodup := by
    have hperm := (insertOrdered_perm e q.entries).map (·.package)
    exact hperm.nodup_iff.2 (List.nodup_cons.2 ⟨hfresh, h.nodup⟩)
  sorted := insertOrdered_sorted e h.sorted
  nonneg := by
    intro other hother
    rcases List.mem_cons.1 ((insertOrdered_perm e q.entries).mem_iff.1 hother) with rfl | hmem
    · exact hnonneg
    · exact h.nonneg other hmem

/-- A new package that is due at once goes ahead of all others. -/
theorem front (h : Ordered interval q) {e : ScheduleEntry} (hdue : e.dueAt = 0)
    (hfresh : e.package ∉ q.entries.map (·.package)) :
    Ordered interval { q with entries := e :: q.entries } where
  interval := h.interval
  nodup := List.nodup_cons.2 ⟨hfresh, h.nodup⟩
  sorted := by
    refine List.pairwise_cons.2 ⟨?_, h.sorted⟩
    intro other hother
    rw [hdue]
    exact h.nonneg other hother
  nonneg := by
    intro other hother
    rcases List.mem_cons.1 hother with rfl | hmem
    · omega
    · exact h.nonneg other hmem

theorem not_mem_dequeue (h : Ordered interval q) (package : String) :
    package ∉ (q.dequeue package).entries.map (·.package) := by
  rw [h.dequeue_entries]
  intro hmem
  obtain ⟨e, he, rfl⟩ := List.mem_map.1 hmem
  simpa using (List.mem_filter.1 he).2

theorem dueFor_eq (h : Ordered interval q) (lastBackup : Int) :
    q.dueFor lastBackup = dueAfter interval lastBackup := by
  unfold dueFor dueAfter satAdd
  rw [h.interval]
  split
  · rfl
  · have : (0 : Int) ≤ min (interval : Int) maxI64 := by
      have : (0 : Int) ≤ maxI64 := by decide
      omega
    have : minI64 ≤ 0 := by decide
    have : (0 : Int) ≤ maxI64 := by decide
    omega

/-- Each change keeps a queue in order. -/
theorem apply (h : Ordered interval q) {change : Change} (hvalid : change.Valid) :
    Ordered interval (change.apply q) := by
  cases change with
  | enqueue package lastBackup =>
    have hdue : (q.entryFor package lastBackup).dueAt = dueAfter interval lastBackup :=
      h.dueFor_eq lastBackup
    show Ordered interval (q.enqueue package lastBackup)
    unfold enqueue
    simp only
    split
    · rename_i hnever
      refine (h.dequeue package).front ?_ (h.not_mem_dequeue package)
      rw [hdue, dueAfter, if_pos hnever]
    · refine (h.dequeue package).insert ?_ (h.not_mem_dequeue package)
      rw [hdue]
      exact dueAfter_nonneg interval lastBackup
  | defer package lastBackup dueAt =>
    exact (h.dequeue package).insert hvalid (h.not_mem_dequeue package)
  | dequeue package => exact h.dequeue package
  | dequeueHead => exact h.sublist (List.tail_sublist _)

theorem after (h : Ordered interval q) {changes : List Change}
    (hvalid : ∀ change ∈ changes, change.Valid) : Ordered interval (q.after changes) := by
  induction changes generalizing q with
  | nil => exact h
  | cons change rest ih =>
    have hstep := h.apply (hvalid change List.mem_cons_self)
    exact ih hstep fun other hother => hvalid other (List.mem_cons_of_mem change hother)

/-- A change inserts its entry where it belongs. -/
theorem placed (h : Ordered interval q) {change : Change} {e : ScheduleEntry}
    (hentry : change.entry? interval = some e) :
    Placed e change.goesFirst q.entries (change.apply q).entries := by
  have hrest := h.dequeue_entries e.package
  have hinsert := insertOrdered_placed e h.sorted
  rw [← hrest] at hinsert
  cases change with
  | enqueue package lastBackup =>
    have hdue := h.dueFor_eq lastBackup
    cases hentry
    show Placed _ (decide (lastBackup ≤ 0)) _ (q.enqueue package lastBackup).entries
    by_cases hnever : lastBackup ≤ 0
    · refine ⟨[], (q.dequeue package).entries, ?_, hrest, by simp [hnever]⟩
      simp [enqueue, hnever, entryFor, hdue]
    · have henqueue : (q.enqueue package lastBackup).entries =
          insertOrdered ⟨package, lastBackup, dueAfter interval lastBackup⟩
            (q.dequeue package).entries := by
        simp [enqueue, hnever, entryFor, hdue]
      rw [decide_eq_false hnever, henqueue]
      exact hinsert
  | defer package lastBackup dueAt =>
    cases hentry
    exact hinsert
  | dequeue package => cases hentry
  | dequeueHead => cases hentry

/-- **What a change does to the map**: its entry is in the queue, and so is every other entry
whose package it does not touch. -/
theorem mem_apply (h : Ordered interval q) (change : Change) (e : ScheduleEntry) :
    e ∈ (change.apply q).entries ↔ change.entry? interval = some e ∨
      (e ∈ q.entries ∧ change.touched? q ≠ some e.package) := by
  cases hentry : change.entry? interval with
  | some new =>
    obtain ⟨earlier, later, hafter, hrest, -⟩ := h.placed hentry
    have htouched : change.touched? q = some new.package := by
      cases change <;> cases hentry <;> rfl
    have hother : e ∈ earlier ++ later ↔ e ∈ q.entries ∧ e.package ≠ new.package := by
      rw [hrest, List.mem_filter, decide_eq_true_iff]
    rw [hafter, htouched, List.mem_append, List.mem_cons]
    rw [List.mem_append] at hother
    constructor
    · rintro (hmem | rfl | hmem)
      · exact .inr ⟨(hother.1 (.inl hmem)).1, by simpa using (hother.1 (.inl hmem)).2.symm⟩
      · exact .inl rfl
      · exact .inr ⟨(hother.1 (.inr hmem)).1, by simpa using (hother.1 (.inr hmem)).2.symm⟩
    · rintro (hsame | ⟨hmem, hne⟩)
      · exact .inr (.inl (Option.some.inj hsame).symm)
      · have hne' : e.package ≠ new.package := fun heq => hne (by rw [heq])
        rcases hother.2 ⟨hmem, hne'⟩ with hmem | hmem
        · exact .inl hmem
        · exact .inr (.inr hmem)
  | none =>
    simp only [reduceCtorEq, false_or]
    cases change with
    | enqueue package lastBackup => cases hentry
    | defer package lastBackup dueAt => cases hentry
    | dequeue package =>
      show e ∈ (q.dequeue package).entries ↔ _
      rw [h.dequeue_entries, List.mem_filter, decide_eq_true_iff]
      refine and_congr_right fun _ => ?_
      show e.package ≠ package ↔ some package ≠ some e.package
      simp [eq_comm]
    | dequeueHead =>
      show e ∈ q.entries.tail ↔ e ∈ q.entries ∧ q.entries.head?.map (·.package) ≠ some e.package
      have hnodup := h.nodup
      generalize q.entries = entries at hnodup
      cases entries with
      | nil => simp
      | cons first rest =>
        obtain ⟨hfresh, -⟩ := List.nodup_cons.1 hnodup
        constructor
        · intro hmem
          refine ⟨List.mem_cons_of_mem first hmem, ?_⟩
          intro heq
          exact hfresh (List.mem_map.2 ⟨e, hmem, (Option.some.inj heq).symm⟩)
        · rintro ⟨hmem, hne⟩
          rcases List.mem_cons.1 hmem with rfl | hmem
          · exact absurd rfl hne
          · exact hmem

end Ordered

/-! ## The queue at the beginning -/

/-- One more pair counts if its package is new. -/
theorem firstPairs_concat (seen : List String) (pairs : List (String × Int))
    (pair : String × Int) :
    firstPairs seen (pairs ++ [pair]) = firstPairs seen pairs ++
      if pair.1 ∈ seen ∨ pair.1 ∈ pairs.map (·.1) then [] else [pair] := by
  induction pairs generalizing seen with
  | nil =>
    obtain ⟨package, lastBackup⟩ := pair
    simp only [List.nil_append, firstPairs, List.contains_iff_mem, List.map_nil, List.not_mem_nil,
      or_false]
  | cons first rest ih =>
    obtain ⟨package, lastBackup⟩ := first
    by_cases hseen : package ∈ seen
    · have hiff : pair.1 ∈ seen ∨ pair.1 ∈ ((package, lastBackup) :: rest).map (·.1) ↔
          pair.1 ∈ seen ∨ pair.1 ∈ rest.map (·.1) := by
        simp only [List.map_cons, List.mem_cons]
        grind
      simp only [List.cons_append, firstPairs, List.contains_iff_mem, hseen, if_true, ih, hiff]
    · have hiff : pair.1 ∈ seen ∨ pair.1 ∈ ((package, lastBackup) :: rest).map (·.1) ↔
          pair.1 ∈ package :: seen ∨ pair.1 ∈ rest.map (·.1) := by
        simp only [List.map_cons, List.mem_cons]
        grind
      simp only [List.cons_append, firstPairs, List.contains_iff_mem, hseen, if_false, ih, hiff]

/-- One more pair is inserted behind those due no later, unless its package is there already. -/
theorem ofPairs_concat (interval : Nat) (pairs : List (String × Int)) (pair : String × Int) :
    (ofPairs interval (pairs ++ [pair])).entries =
      if pair.1 ∈ pairs.map (·.1) then (ofPairs interval pairs).entries
      else
        insertOrdered ((new interval).entryFor pair.1 pair.2) (ofPairs interval pairs).entries := by
  simp only [ofPairs, firstPairs_concat, List.not_mem_nil, false_or]
  split
  · rw [List.append_nil]
  · rw [List.map_append, List.foldl_append]
    rfl

theorem entryFor_new (interval : Nat) (package : String) (lastBackup : Int) :
    (new interval).entryFor package lastBackup =
      ⟨package, lastBackup, dueAfter interval lastBackup⟩ := by
  have hnew : Ordered interval (new interval) :=
    ⟨rfl, List.nodup_nil, List.Pairwise.nil, fun _ h => absurd h List.not_mem_nil⟩
  rw [entryFor, hnew.dueFor_eq]

/-- Of several pairs of one package the first is in the queue. -/
theorem mem_ofPairs (interval : Nat) (pairs : List (String × Int)) (e : ScheduleEntry) :
    e ∈ (ofPairs interval pairs).entries ↔
      pairs.find? (·.1 == e.package) = some (e.package, e.lastBackup) ∧
        e.dueAt = dueAfter interval e.lastBackup := by
  induction pairs using List.reverseRecOn with
  | nil => simp [ofPairs, firstPairs, new]
  | append_singleton pairs pair ih =>
    rw [ofPairs_concat, List.find?_append]
    by_cases hold : pair.1 ∈ pairs.map (·.1)
    · rw [if_pos hold, ih]
      cases hfind : pairs.find? (·.1 == e.package) with
      | some found => rfl
      | none =>
        have hother : ¬ pair.1 = e.package := by
          intro heq
          obtain ⟨first, hmem, hfirst⟩ := List.mem_map.1 hold
          exact List.find?_eq_none.1 hfind first hmem (by simp [hfirst, heq])
        simp [hother]
    · rw [if_neg hold, (insertOrdered_perm _ _).mem_iff, List.mem_cons, ih, entryFor_new]
      obtain ⟨package, lastBackup, dueAt⟩ := e
      cases hfind : pairs.find? (·.1 == package) with
      | some found =>
        have hne : package ≠ pair.1 := by
          rintro rfl
          have hsame := List.find?_some hfind
          refine hold (List.mem_map.2 ⟨found, List.mem_of_find?_eq_some hfind, ?_⟩)
          simpa using hsame
        simp [hne]
      | none =>
        obtain ⟨name, last⟩ := pair
        by_cases hname : name = package
        · subst hname
          simp only [Option.none_or, ScheduleEntry.mk.injEq, List.find?_cons, beq_self_eq_true,
            Option.some.injEq, Prod.mk.injEq, true_and, reduceCtorEq, false_and, or_false]
          grind
        · have hname' : ¬ package = name := fun h => hname h.symm
          simp [hname, hname']

theorem mem_pairs_of_mem {interval : Nat} {pairs : List (String × Int)} {e : ScheduleEntry}
    (h : e ∈ (ofPairs interval pairs).entries) : e.package ∈ pairs.map (·.1) :=
  List.mem_map_of_mem (List.mem_of_find?_eq_some ((mem_ofPairs interval pairs e).1 h).1)

theorem ofPairs_ordered (interval : Nat) (pairs : List (String × Int)) :
    Ordered interval (ofPairs interval pairs) := by
  induction pairs using List.reverseRecOn with
  | nil => exact ⟨rfl, List.nodup_nil, List.Pairwise.nil, fun _ h => absurd h List.not_mem_nil⟩
  | append_singleton pairs pair ih =>
    have hshape : ofPairs interval (pairs ++ [pair]) =
        { ofPairs interval pairs with entries := (ofPairs interval (pairs ++ [pair])).entries } :=
      rfl
    rw [hshape, ofPairs_concat]
    by_cases hold : pair.1 ∈ pairs.map (·.1)
    · rw [if_pos hold]
      exact ih
    · rw [if_neg hold]
      refine ih.insert ?_ ?_
      · rw [entryFor_new]
        exact dueAfter_nonneg interval pair.2
      · intro hmem
        obtain ⟨e, he, hpackage⟩ := List.mem_map.1 hmem
        have hfound := mem_pairs_of_mem he
        rw [show e.package = pair.1 from hpackage] at hfound
        exact hold hfound

/-! ## Histories -/

theorem after_append (q : Schedule) (changes more : List Change) :
    q.after (changes ++ more) = (q.after changes).after more := List.foldl_append

theorem spared_concat (q : Schedule) (package : String) (changes : List Change)
    (change : Change) :
    q.Spared package (changes ++ [change]) ↔
      q.Spared package changes ∧ change.touched? (q.after changes) ≠ some package := by
  induction changes generalizing q with
  | nil => simp [Spared, after]
  | cons first rest ih =>
    show _ ∧ (first.apply q).Spared package (rest ++ [change]) ↔ (_ ∧ _) ∧ _
    rw [ih, and_assoc]
    rfl

/-- One more change either inserts the last entry of its package or does not touch it. -/
theorem lastEntry_concat {interval : Nat} {pairs : List (String × Int)} {changes : List Change}
    {change : Change} {e : ScheduleEntry} :
    LastEntry interval pairs (changes ++ [change]) e ↔ change.entry? interval = some e ∨
      (LastEntry interval pairs changes e ∧
        change.touched? ((ofPairs interval pairs).after changes) ≠ some e.package) := by
  constructor
  · rintro (⟨before, inserting, later, hsplit, hentry, hspared⟩ | ⟨hlisted, hdue, hspared⟩)
    · rcases List.eq_nil_or_concat later with rfl | ⟨later, last, rfl⟩
      · obtain ⟨-, hlast⟩ := List.append_inj' hsplit rfl
        cases hlast
        exact .inl hentry
      · rw [List.concat_eq_append] at hsplit hspared
        rw [← List.cons_append, ← List.append_assoc] at hsplit
        obtain ⟨hchanges, hlast⟩ := List.append_inj' hsplit rfl
        cases hlast
        obtain ⟨hspared, htouched⟩ := (spared_concat _ _ _ _).1 hspared
        refine .inr ⟨.inl ⟨before, inserting, later, hchanges, hentry, hspared⟩, ?_⟩
        rwa [hchanges, List.append_cons, after_append]
    · obtain ⟨hspared, htouched⟩ := (spared_concat _ _ _ _).1 hspared
      exact .inr ⟨.inr ⟨hlisted, hdue, hspared⟩, htouched⟩
  · rintro (hentry | ⟨⟨before, inserting, later, rfl, hentry, hspared⟩ | ⟨hlisted, hdue, hspared⟩,
      htouched⟩)
    · exact .inl ⟨changes, change, [], rfl, hentry, trivial⟩
    · refine .inl ⟨before, inserting, later ++ [change], by simp, hentry, ?_⟩
      refine (spared_concat _ _ _ _).2 ⟨hspared, ?_⟩
      rwa [← after_append, List.append_assoc]
    · exact .inr ⟨hlisted, hdue, (spared_concat _ _ _ _).2 ⟨hspared, htouched⟩⟩

/-- The queue holds the last entries. -/
theorem mem_after {interval : Nat} {pairs : List (String × Int)} {changes : List Change}
    (hvalid : ∀ change ∈ changes, change.Valid) (e : ScheduleEntry) :
    e ∈ ((ofPairs interval pairs).after changes).entries ↔
      LastEntry interval pairs changes e := by
  induction changes using List.reverseRecOn with
  | nil =>
    show e ∈ (ofPairs interval pairs).entries ↔ _
    simp [mem_ofPairs, LastEntry, Spared]
  | append_singleton changes change ih =>
    have hbefore : ∀ other ∈ changes, other.Valid := by
      intro other hother
      exact hvalid other (List.mem_append_left _ hother)
    have hordered := (ofPairs_ordered interval pairs).after hbefore
    rw [after_append, lastEntry_concat, ← ih hbefore]
    exact hordered.mem_apply change e

/-- **The schedule is an ordered map.** A queue built from any pairs and changed in any way, with
no package deferred to a time before the epoch, has one entry per package, by due time, and holds
exactly the last entry of each package that was not taken out since. A further insertion keeps the
order of all other entries and puts the new one behind those due no later, or ahead of all if its
package was never backed up; so does a further pair of a new package when the queue is built. The
first entry, which is the one to be taken out next, is due no later than any other. -/
theorem after_ordered_map (interval : Nat) (pairs : List (String × Int)) (changes : List Change)
    (hvalid : ∀ change ∈ changes, change.Valid) :
    let q := (ofPairs interval pairs).after changes
    new interval = ofPairs interval [] ∧
      (q.entries.map (·.package)).Nodup ∧
      q.entries.Pairwise (fun a b => a.dueAt ≤ b.dueAt) ∧
      (∀ e, e ∈ q.entries ↔ LastEntry interval pairs changes e) ∧
      (∀ (change : Change) e, change.entry? interval = some e →
        Placed e change.goesFirst q.entries (change.apply q).entries) ∧
      (∀ package lastBackup, package ∉ pairs.map (·.1) →
        Placed ⟨package, lastBackup, dueAfter interval lastBackup⟩ false
          (ofPairs interval pairs).entries
          (ofPairs interval (pairs ++ [(package, lastBackup)])).entries) ∧
      ∀ e, q.head? = some e →
        q.entries = e :: q.dequeueHead.entries ∧ ∀ other ∈ q.entries, e.dueAt ≤ other.dueAt := by
  have hbuilt := ofPairs_ordered interval pairs
  have hordered := hbuilt.after hvalid
  refine ⟨rfl, hordered.nodup, hordered.sorted, mem_after hvalid, ?_, ?_, ?_⟩
  · intro change e hentry
    exact hordered.placed hentry
  · intro package lastBackup hfresh
    have hplaced := insertOrdered_placed ⟨package, lastBackup, dueAfter interval lastBackup⟩
      hbuilt.sorted
    have hothers : ∀ other ∈ (ofPairs interval pairs).entries, other.package ≠ package := by
      rintro other hother rfl
      exact hfresh (mem_pairs_of_mem hother)
    rw [List.filter_eq_self.2 (by simpa using hothers)] at hplaced
    rw [ofPairs_concat, if_neg hfresh, entryFor_new]
    exact hplaced
  · intro e hhead
    obtain ⟨rest, hentries⟩ := List.head?_eq_some_iff.1 hhead
    have hsorted := hordered.sorted
    rw [hentries] at hsorted
    refine ⟨?_, ?_⟩
    · rw [hentries, dequeueHead, hentries]
      rfl
    · intro other hother
      rw [hentries] at hother
      rcases List.mem_cons.1 hother with rfl | hmem
      · exact Int.le_refl _
      · exact (List.pairwise_cons.1 hsorted).1 other hmem

/-- Two packages are in the queue; one is put off, one that was never backed up comes and is taken
out, another one comes and stays. -/
def busyDay : List Change :=
  [.defer "mail" 0 120, .enqueue "maps" (-1), .enqueue "photos" 20, .dequeueHead]

theorem after_ordered_map_busyDay :
    (∀ change ∈ busyDay, change.Valid) ∧
      LastEntry 100 [("mail", 0), ("notes", 50), ("mail", 70)] busyDay ⟨"mail", 0, 120⟩ ∧
      ¬ LastEntry 100 [("mail", 0), ("notes", 50), ("mail", 70)] busyDay ⟨"maps", -1, 0⟩ ∧
      (((ofPairs 100 [("mail", 0), ("notes", 50), ("mail", 70)]).after busyDay).entries.map
        (·.package)).Nodup := by
  have hvalid : ∀ change ∈ busyDay, change.Valid := by simp [busyDay, Change.Valid]
  obtain ⟨-, hnodup, -, hlast, -⟩ :=
    after_ordered_map 100 [("mail", 0), ("notes", 50), ("mail", 70)] busyDay hvalid
  exact ⟨hvalid, (hlast _).1 (by decide), fun h => absurd ((hlast _).2 h) (by decide), hnodup⟩

end Holdfast.Schedule
