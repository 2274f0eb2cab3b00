import Holdfast.Proofs.Pending.Replay

/-!
# Crash durability of data changes

A pending set together with the passes that took packages from it and have not finished. Along
every run whose file operations succeed:

- `Custody.Sound`: the invariant; each set of packages is covered by a generation of its own;
- `Custody.Run.sound`: **the invariant holds in every run**, act by act (`Sound.act`);
- `Custody.run_durable`: **no crash loses a package.** Whatever is pending or in an unfinished
  pass is listed by a journal file at every point, so a new set stages it again; and after a
  replay there are no journal files but those of the set and of the unfinished passes.
-/

namespace Holdfast

open Disk Pending

/-- A pending set, the passes that took packages from it and are not finished, and the disk. -/
structure Custody where
  pending : Pending
  passes : List Drained := []
  disk : Disk
  /-- Whether what earlier runs left behind has been replayed. -/
  replayed : Bool := false

namespace Custody

/-- What can be done with a pending set. -/
inductive Act where
  | record (package : String) (targets : NameSet)
  | restage (packages : List String)
  | drain
  /-- Close an unfinished pass, given by its position. -/
  | finish (number : Nat) (success : Bool)
  | remove (package : String)
  | replay (targets : NameSet)

/-- A new set over a folder. -/
def fresh (folder : Path) (d : Disk) : Custody := { pending := { folder }, disk := d }

/-- Carry out an act. -/
def act (c : Custody) : Act → Custody
  | .record package targets =>
    let (_, pending, disk) := c.pending.record package targets c.disk
    { c with pending, disk }
  | .restage packages =>
    let (pending, disk) := c.pending.restage packages c.disk
    { c with pending, disk }
  | .drain =>
    let (pass, pending) := c.pending.drain
    { c with pending, passes := c.passes ++ [pass] }
  | .finish number success =>
    match c.passes[number]? with
    | none => c
    | some pass =>
      let (pending, disk) := c.pending.finish pass success c.disk
      { c with pending, disk, passes := c.passes.eraseIdx number }
  | .remove package => { c with pending := (c.pending.remove package).2 }
  | .replay targets =>
    let (_, pending, disk) := c.pending.replay targets c.disk
    { c with pending, disk, replayed := true }

/-- The act is allowed and its file operations succeed. Replay comes first, before the set has
anything of its own. -/
def Smooth (c : Custody) : Act → Prop
  | .record package targets => package ∈ targets → c.pending.Stages package c.disk
  | .restage packages => c.pending.Restages packages c.disk
  | .finish number success => ∀ pass, c.passes[number]? = some pass → success = false →
    c.pending.Restages pass.packages c.disk
  | .replay targets => (∀ package, package ∉ c.pending.packages) ∧ c.pending.journal = none ∧
    c.passes = [] ∧ c.replayed = false ∧
    c.pending.ReplaysEach (Journal.list c.disk c.pending.folder) targets c.disk
  | .drain | .remove _ => True

/-- The runs over a journal folder. -/
inductive Run (folder : Path) : Custody → Prop where
  | start {d : Disk} : Tree d.nodes → Run folder (fresh folder d)
  | act {c : Custody} {a : Act} : Run folder c → c.Smooth a → Run folder (c.act a)

/-- The package is pending or in an unfinished pass. -/
def Holds (c : Custody) (package : String) : Prop :=
  package ∈ c.pending.packages ∨ ∃ pass ∈ c.passes, package ∈ pass.packages

/-- The package is held throughout an act: it was held before, or it is handed on inside the
act. -/
def HoldsDuring (c : Custody) (a : Act) (package : String) : Prop :=
  c.Holds package ∨ match a with
    | .finish _ _ | .replay _ => (c.act a).Holds package
    | _ => False

/-- The current generation and those of the unfinished passes. -/
def journals (c : Custody) : List Journal :=
  c.pending.journal.toList ++ c.passes.filterMap Drained.journal

/-- Some journal file of the folder lists the package. -/
def Listed (d : Disk) (folder : Path) (package : String) : Prop :=
  ∃ j ∈ Journal.list d folder, ∃ names, j.packages d = .ok names ∧ package ∈ names

/-- A new set over the folder stages the package when it replays. -/
def Recovers (d : Disk) (folder : Path) (package : String) : Prop :=
  ∀ targets : NameSet, package ∈ targets →
    package ∈ ((fresh folder d).act (.replay targets)).pending.packages

theorem listed_of_jotted {d : Disk} {folder : Path} {package : String} (ht : Tree d.nodes)
    (h : Jotted d.nodes folder package) : Listed d folder package := by
  obtain ⟨name, content, hname, hmem, hlists⟩ := h
  exact ⟨⟨name :: folder⟩, (Journal.mem_list_iff ht).2 ⟨name, content, rfl, hname, hmem⟩, _,
    Journal.packages_of_mem ht hmem, hlists⟩

/-- What is safe on a disk survives it. -/
theorem recovered_of_safe {d : Disk} {folder : Path} {held : String → Prop}
    (hs : Safe folder held d.nodes) {package : String} (hp : held package) :
    Listed d folder package ∧ Recovers d folder package := by
  have hjotted := hs.2 package hp
  exact ⟨listed_of_jotted hs.1 hjotted, fun targets htarget =>
    mem_replay_of_jotted rfl hs.1 hjotted htarget⟩

/-! ## The invariant -/

/-- The pending packages and those of each unfinished pass are covered by generations of their
own. -/
structure Sound (folder : Path) (c : Custody) : Prop where
  place : c.pending.folder = folder
  tree : Tree c.disk.nodes
  current : Current c.pending c.disk.nodes
  passes : ∀ pass ∈ c.passes, Covers folder pass.journal (· ∈ pass.packages) c.disk.nodes
  apart : c.journals.Nodup
  exact : c.replayed = true → ∀ j ∈ Journal.list c.disk folder, j ∈ c.journals

variable {folder : Path} {c : Custody}

theorem mem_journals {j : Journal} :
    j ∈ c.journals ↔ c.pending.journal = some j ∨ ∃ pass ∈ c.passes, pass.journal = some j := by
  simp [journals, List.mem_filterMap]

/-- Every generation of the set or of a pass is a journal file. -/
theorem Sound.mem_list (h : Sound folder c) {j : Journal} (hj : j ∈ c.journals) :
    j ∈ Journal.list c.disk folder := by
  have hfile : ∃ name content, j.path = name :: folder ∧ Journal.isJournalName name = true ∧
      (j.path, Node.file content) ∈ c.disk.nodes := by
    rcases mem_journals.1 hj with hcur | ⟨pass, hpass, heq⟩
    · have hc := h.current
      rw [Current, hcur, h.place] at hc
      exact hc.mem
    · have hc := h.passes pass hpass
      rw [heq] at hc
      exact hc.mem
  obtain ⟨name, content, hpath, hname, hmem⟩ := hfile
  exact (Journal.mem_list_iff h.tree).2
    ⟨name, content, Journal.eq_of_path hpath, hname, hpath ▸ hmem⟩

/-- Whatever is held is safe. -/
theorem Sound.safe (h : Sound folder c) : Safe folder c.Holds c.disk.nodes := by
  refine ⟨h.tree, fun package hp => ?_⟩
  rcases hp with hp | ⟨pass, hpass, hp⟩
  · exact h.place ▸ h.current.jotted hp
  · exact (h.passes pass hpass).jotted hp

/-- The generation of a pass is not the current one. -/
theorem Sound.journal_ne (h : Sound folder c) {pass : Drained} (hpass : pass ∈ c.passes)
    {j : Journal} (hj : pass.journal = some j) : c.pending.journal ≠ some j := by
  intro hcur
  have hdisjoint := (List.nodup_append.1 h.apart).2.2
  refine hdisjoint j ?_ j (List.mem_filterMap.2 ⟨pass, hpass, hj⟩) rfl
  simp [hcur]

theorem sound_fresh {d : Disk} (ht : Tree d.nodes) : Sound folder (fresh folder d) where
  place := rfl
  tree := ht
  current package h := by cases h
  passes pass h := by cases h
  apart := List.nodup_nil
  exact h := by cases h

/-! ## Acts -/

/-- The generations of passes are leftovers for the set. -/
theorem Sound.leftover (h : Sound folder c) {pass : Drained} (hpass : pass ∈ c.passes)
    {j : Journal} (hj : pass.journal = some j) : c.pending.Leftover c.disk j := by
  have hc := h.passes pass hpass
  rw [hj] at hc
  exact ⟨h.journal_ne hpass hj, h.place.symm ▸ hc.mem⟩

/-- Stagings keep the invariant. -/
theorem Sound.kept (h : Sound folder c) {pending : Pending} {disk : Disk}
    (hkept : Kept c.pending c.disk pending disk) :
    Sound folder { c with pending, disk } where
  place := hkept.folder.trans h.place
  tree := hkept.tree
  current := hkept.current
  passes pass hpass := by
    refine (h.passes pass hpass).of_spared fun j hj content hmem => ?_
    exact (hkept.spares j.path (hkept.leftover (h.leftover hpass hj)).1 content).2 hmem
  apart := by
    have hpasses := (List.nodup_append.1 h.apart).2.1
    refine List.nodup_append.2 ⟨?_, hpasses, fun j hj j' hj' heq => ?_⟩
    · cases pending.journal <;> simp
    · subst heq
      obtain ⟨pass, hpass, hjournal⟩ := List.mem_filterMap.1 hj'
      exact (hkept.leftover (h.leftover hpass hjournal)).1 (by simpa using hj)
  exact hreplayed j hj := by
    obtain ⟨name, content, rfl, hname, hmem⟩ := (Journal.mem_list_iff hkept.tree).1 hj
    rw [mem_journals]
    by_cases hcur : pending.journal = some ⟨name :: folder⟩
    · exact .inl hcur
    · have hold := (hkept.spares _ hcur content).1 hmem
      have hlisted := (Journal.mem_list_iff h.tree).2 ⟨name, content, rfl, hname, hold⟩
      rcases mem_journals.1 (h.exact hreplayed _ hlisted) with heq | hpass
      · exact .inl (hkept.journal _ heq)
      · exact .inr hpass

/-- Handing the packages over moves them and their generation to a pass. -/
theorem Sound.drain (h : Sound folder c) : Sound folder (c.act .drain) where
  place := h.place
  tree := h.tree
  current package hp := by cases hp
  passes pass hpass := by
    rcases List.mem_append.1 hpass with hpass | hpass
    · exact h.passes pass hpass
    · rw [List.mem_singleton.1 hpass]
      exact h.place ▸ h.current
  apart := by
    have hperm : (c.act .drain).journals.Perm c.journals := by
      simp only [act, Pending.drain, journals, List.filterMap_append, Option.toList_none,
        List.nil_append]
      refine List.perm_append_comm.trans (List.Perm.append_right _ ?_)
      cases c.pending.journal <;> simp
    exact hperm.nodup_iff.2 h.apart
  exact hreplayed j hj := by
    rcases mem_journals.1 (h.exact hreplayed j hj) with hcur | ⟨pass, hpass, heq⟩
    · exact mem_journals.2 (.inr ⟨_, List.mem_append_right _ (List.mem_singleton.2 rfl), hcur⟩)
    · exact mem_journals.2 (.inr ⟨pass, List.mem_append_left _ hpass, heq⟩)

/-- A package that is forgotten stays in the generation. -/
theorem Sound.remove (h : Sound folder c) (package : String) :
    Sound folder (c.act (.remove package)) where
  place := h.place
  tree := h.tree
  current := h.current.mono fun _ hx => (NameSet.mem_erase.1 hx).1
  passes := h.passes
  apart := h.apart
  exact := h.exact

/-- The generations without that of a pass that is closed. -/
theorem journals_eraseIdx {number : Nat} {pass : Drained}
    (hpass : c.passes[number]? = some pass) :
    (pass.journal.toList ++ { c with passes := c.passes.eraseIdx number }.journals).Perm
      c.journals := by
  obtain ⟨hlt, heq⟩ := List.getElem?_eq_some_iff.1 hpass
  have hperm := (List.getElem_cons_eraseIdx_perm hlt).filterMap Drained.journal
  rw [heq] at hperm
  rw [journals, journals, ← List.append_assoc]
  refine (List.Perm.append_right _ List.perm_append_comm).trans ?_
  rw [List.append_assoc]
  refine List.Perm.append_left _ (List.Perm.trans ?_ hperm)
  cases hj : pass.journal <;> simp [hj]

/-- Deleting the generation of a pass that is closed. -/
theorem Sound.retire (h : Sound folder c) {number : Nat} {pass : Drained}
    (hpass : c.passes[number]? = some pass) :
    Sound folder { c with
      disk := Pending.retire pass c.disk, passes := c.passes.eraseIdx number } ∧
      ∀ P : Listing → Prop, P c.disk.nodes → Guarded P c.disk (Pending.retire pass c.disk) := by
  have hperm := journals_eraseIdx hpass
  have hapart := hperm.nodup_iff.2 h.apart
  have hothers : ∀ other ∈ c.passes.eraseIdx number, other ∈ c.passes :=
    fun other hother => List.mem_of_mem_eraseIdx hother
  unfold Pending.retire
  cases hj : pass.journal with
  | none =>
    rw [hj] at hperm hapart
    refine ⟨⟨h.place, h.tree, h.current, fun other hother => h.passes other (hothers _ hother),
      hapart, fun hreplayed j hlisted => ?_⟩, fun _ _ => .refl⟩
    exact hperm.mem_iff.2 (h.exact hreplayed j hlisted)
  | some j =>
    rw [hj] at hperm hapart
    have hnew := List.nodup_cons.1 hapart
    have hmem := List.mem_of_getElem? hpass
    obtain ⟨hne, _, content, _, _, hfile⟩ := h.leftover hmem hj
    obtain ⟨d', hdelete, hnodes, ht', hguard⟩ := Journal.delete_of_mem h.tree hfile
    simp only [hdelete]
    refine ⟨⟨h.place, ht', hnodes ▸ h.current.without hne, fun other hother => ?_, hnew.2,
      fun hreplayed j' hlisted => ?_⟩, hguard⟩
    · refine (h.passes other (hothers _ hother)).of_spared fun j' hj' content' hmem' => ?_
      rw [hnodes]
      refine mem_without.2 ⟨hmem', fun heq => hnew.1 ?_⟩
      rw [← Journal.eq_of_path heq]
      exact mem_journals.2 (.inr ⟨other, hother, hj'⟩)
    · obtain ⟨name, content', rfl, hname, hmem'⟩ := (Journal.mem_list_iff ht').1 hlisted
      rw [hnodes] at hmem'
      obtain ⟨hmem', hother⟩ := mem_without.1 hmem'
      have hold := h.exact hreplayed _
        ((Journal.mem_list_iff h.tree).2 ⟨name, content', rfl, hname, hmem'⟩)
      rcases List.mem_cons.1 (hperm.mem_iff.2 hold) with heq | hin
      · exact absurd (congrArg Journal.path heq) hother
      · exact hin

/-- The part of closing a pass that comes before its generation is deleted. -/
theorem finish_kept (h : Sound folder c) {pass : Drained} {success : Bool}
    (hok : success = false → c.pending.Restages pass.packages c.disk) :
    ∃ pending disk, c.pending.finish pass success c.disk = (pending, Pending.retire pass disk) ∧
      Kept c.pending c.disk pending disk ∧
      ∀ x ∈ pending.packages, x ∈ c.pending.packages ∨ x ∈ pass.packages := by
  cases success with
  | true => exact ⟨_, _, rfl, .refl h.tree h.current, fun x hx => .inl hx⟩
  | false =>
    exact ⟨_, _, rfl, restage_kept h.tree h.current (hok rfl), fun x hx => mem_restage.1 hx⟩

/-- Closing a pass keeps the invariant, and nothing that is held goes missing on the way. -/
theorem Sound.finish (h : Sound folder c) {number : Nat} {success : Bool}
    (hok : c.Smooth (.finish number success)) :
    Sound folder (c.act (.finish number success)) ∧
      Guarded (Safe folder (c.HoldsDuring (.finish number success))) c.disk
        (c.act (.finish number success)).disk := by
  cases hpass : c.passes[number]? with
  | none =>
    have hact : c.act (.finish number success) = c := by simp only [act, hpass]
    rw [hact]
    exact ⟨h, .refl⟩
  | some pass =>
    obtain ⟨pending, disk, hfinish, hkept, hstaged⟩ := finish_kept h (hok pass hpass)
    have hact : c.act (.finish number success) = { c with
        pending, disk := Pending.retire pass disk, passes := c.passes.eraseIdx number } := by
      simp only [act, hpass, hfinish]
    -- what is held after the act was held before it
    have hheld : ∀ x, c.HoldsDuring (.finish number success) x → c.Holds x := by
      rintro x (hx | hx)
      · exact hx
      · rw [hact] at hx
        rcases hx with hx | ⟨other, hother, hx⟩
        · rcases hstaged x hx with hx | hx
          · exact .inl hx
          · exact .inr ⟨pass, List.mem_of_getElem? hpass, hx⟩
        · exact .inr ⟨other, List.mem_of_mem_eraseIdx hother, hx⟩
    obtain ⟨hsound, hguard⟩ := Sound.retire (h.kept hkept) hpass
    have hs := h.safe.mono hheld
    have hguarded := hkept.guarded (c.HoldsDuring (.finish number success))
    have hsafe := hkept.safe (c.HoldsDuring (.finish number success))
    rw [h.place] at hguarded hsafe
    rw [hact]
    exact ⟨hsound, (hguarded hs).trans (hguard _ (hsafe hs))⟩

/-- Replay establishes that there are no other journal files, and nothing that it stages goes
missing on the way. -/
theorem Sound.replay (h : Sound folder c) {targets : NameSet}
    (hok : c.Smooth (.replay targets)) :
    Sound folder (c.act (.replay targets)) ∧
      Guarded (Safe folder (c.HoldsDuring (.replay targets))) c.disk
        (c.act (.replay targets)).disk := by
  obtain ⟨hempty, hnone, hpasses, _, hok⟩ := hok
  have hleft : ∀ j ∈ Journal.list c.disk c.pending.folder, c.pending.Leftover c.disk j := by
    intro j hj
    obtain ⟨name, content, rfl, hname, hmem⟩ := (Journal.mem_list_iff h.tree).1 hj
    exact ⟨by simp [hnone], name, content, rfl, hname, hmem⟩
  have hdone := replayEach_replayed h.tree h.current (Journal.list_nodup h.tree _) hleft hok
  have hheld : ∀ x, c.HoldsDuring (.replay targets) x →
      x ∈ targets ∧ Jotted c.disk.nodes folder x := by
    rintro x ((hx | ⟨pass, hpass, _⟩) | (hx | ⟨pass, hpass, _⟩))
    · exact absurd hx (hempty x)
    · simp [hpasses] at hpass
    · rcases hdone.staged x hx with hx | ⟨htarget, j, hj, content, hmem, hlists⟩
      · exact absurd hx (hempty x)
      · obtain ⟨name, _, rfl, hname, _⟩ := (Journal.mem_list_iff h.tree).1 hj
        exact ⟨htarget, name, content, hname, h.place ▸ hmem, hlists⟩
    · have : pass ∈ c.passes := hpass
      simp [hpasses] at this
  have hguarded := hdone.guarded (c.HoldsDuring (.replay targets)) fun x hx => (hheld x hx).1
  refine ⟨⟨hdone.folder.trans h.place, hdone.tree, hdone.current, fun pass hpass => ?_, ?_,
    fun _ j hj => ?_⟩, h.place ▸ hguarded ⟨h.tree, fun x hx => h.place.symm ▸ (hheld x hx).2⟩⟩
  · have : pass ∈ c.passes := hpass
    simp [hpasses] at this
  · show (Option.toList _ ++ c.passes.filterMap Drained.journal).Nodup
    rw [hpasses, List.filterMap_nil, List.append_nil]
    cases (c.act (.replay targets)).pending.journal <;> simp
  · obtain ⟨name, content, rfl, hname, hmem⟩ := (Journal.mem_list_iff hdone.tree).1 hj
    rw [mem_journals]
    rcases hdone.files _ content hmem with hcur | ⟨hnot, hmem⟩
    · exact .inl hcur
    · refine absurd ((Journal.mem_list_iff h.tree).2 ⟨name, content, ?_, hname, ?_⟩) hnot
      · rw [h.place]
      · rw [h.place]
        exact hmem

/-- Every act keeps the invariant, and nothing held goes missing on the way. -/
theorem Sound.act (h : Sound folder c) {a : Act} (hok : c.Smooth a) :
    Sound folder (c.act a) ∧ Guarded (Safe folder (c.HoldsDuring a)) c.disk (c.act a).disk := by
  have hplain : (∀ x, c.HoldsDuring a x → c.Holds x) → ∀ {pending : Pending} {disk : Disk},
      Kept c.pending c.disk pending disk →
      Guarded (Safe folder (c.HoldsDuring a)) c.disk disk := by
    intro hheld pending disk hkept
    have hguarded := hkept.guarded (c.HoldsDuring a)
    rw [h.place] at hguarded
    exact hguarded (h.safe.mono hheld)
  cases a with
  | record package targets =>
    have hkept := record_kept h.tree h.current hok
    exact ⟨h.kept hkept, hplain (fun x hx => hx.resolve_right id) hkept⟩
  | restage packages =>
    have hkept := restage_kept h.tree h.current hok
    exact ⟨h.kept hkept, hplain (fun x hx => hx.resolve_right id) hkept⟩
  | drain => exact ⟨h.drain, .refl⟩
  | finish number success => exact h.finish hok
  | remove package => exact ⟨h.remove package, .refl⟩
  | replay targets => exact h.replay hok

/-- **The invariant holds in every run.** -/
theorem Run.sound (h : Run folder c) : Sound folder c := by
  induction h with
  | start ht => exact sound_fresh ht
  | act _ hok ih => exact (ih.act hok).1

/-- **No crash loses a package.** In every run whose file operations succeed, whatever is held is
listed by a journal file and staged again by the replay of a new set, also when an act is cut
short between two of its effects or by a torn append. Once leftovers have been replayed, the
journal files are the current one and those of the unfinished passes. -/
theorem run_durable (h : Run folder c) :
    (∀ x, c.Holds x → Listed c.disk folder x ∧ Recovers c.disk folder x) ∧
    (∀ a m, c.Smooth a → Interrupted c.disk (c.act a).disk m →
      ∀ x, c.HoldsDuring a x → Listed m folder x ∧ Recovers m folder x) ∧
    (c.replayed = true →
      c.journals.Nodup ∧ ∀ j, j ∈ Journal.list c.disk folder ↔ j ∈ c.journals) := by
  have hsound := h.sound
  refine ⟨fun x hx => recovered_of_safe hsound.safe hx, fun a m hok hm x hx => ?_,
    fun hreplayed => ⟨hsound.apart, fun j => ⟨hsound.exact hreplayed j, hsound.mem_list⟩⟩⟩
  exact recovered_of_safe ((hsound.act hok).2.interrupted hm) hx

/-- A package that was announced and handed to a pass survives a crash. -/
theorem run_durable_drained :
    Listed (((fresh ["pending"] {}).act (.record "a" (.ofList ["a"]))).act .drain).disk
        ["pending"] "a" ∧
      Recovers (((fresh ["pending"] {}).act (.record "a" (.ofList ["a"]))).act .drain).disk
        ["pending"] "a" := by
  have hsmooth : (fresh ["pending"] {}).Smooth (.record "a" (.ofList ["a"])) :=
    fun _ => .inr (by decide +kernel)
  have hrun : Run ["pending"]
      (((fresh ["pending"] {}).act (.record "a" (.ofList ["a"]))).act .drain) :=
    .act (.act (.start tree_nil) hsmooth) trivial
  have hmem :
      "a" ∈ ((fresh ["pending"] {}).act (.record "a" (.ofList ["a"]))).pending.packages := by
    decide +kernel
  exact (run_durable hrun).1 "a" (.inr ⟨_, List.mem_singleton.2 rfl, hmem⟩)

end Custody

end Holdfast
