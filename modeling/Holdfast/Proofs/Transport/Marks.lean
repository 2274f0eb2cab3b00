import Holdfast.Proofs.Disk.Ways
import Holdfast.Transport.Registry
import Mathlib.Data.List.Infix

/-!
# The marks of the transports

A registry knows by name which transports must be wiped, and keeps a file as a mark in the
folder of each of them. Registration reads the mark of the folder, a transport that is dropped
takes its name out of memory, and marking changes both. Memory can be ahead of the disk in one
way only: a transport that is marked is registered anew in a folder without a mark.

- `Registrar`: a registry with its disk, `Registrar.act` and `Registrar.run`;
- `Registrar.Succeeds`: every act of a run succeeds, and no folder is another one's or leads
  through another one's mark;
- `Registrar.Displaced`: the last act about a name registered it, while it was marked, in a
  folder without a mark;
- `Registrar.marks_mirrored`: **after every run memory and disk agree on a registered transport,
  unless it is displaced**;
- `Registrar.mark_outlives_move`: a run after which they do not agree.
-/

namespace Holdfast

/-! ## The registered transports -/

namespace TransportRegistry

theorem lookup_enter (transports : List (String × TransportDescription))
    (t : TransportDescription) (name : String) :
    (enter transports t).lookup name =
      if name = t.name then some t else transports.lookup name := by
  induction transports with
  | nil =>
    rw [enter, List.lookup_cons]
    by_cases h : name = t.name
    · simp [h]
    · simp [h, beq_eq_false_iff_ne.2 h]
  | cons entry rest ih =>
    obtain ⟨known, other⟩ := entry
    rw [enter]
    by_cases hknown : known = t.name
    · subst hknown
      rw [if_pos rfl, List.lookup_cons, List.lookup_cons]
      by_cases h : name = t.name
      · simp [h]
      · simp [h, beq_eq_false_iff_ne.2 h]
    · rw [if_neg hknown, List.lookup_cons, List.lookup_cons, ih]
      by_cases h : name = known
      · subst h
        simp [hknown]
      · simp [beq_eq_false_iff_ne.2 h]

theorem lookup_filter_ne (transports : List (String × TransportDescription))
    {gone name : String} (hne : name ≠ gone) :
    (transports.filter fun entry => decide (entry.1 ≠ gone)).lookup name =
      transports.lookup name := by
  induction transports with
  | nil => rfl
  | cons entry rest ih =>
    by_cases hgone : entry.1 = gone
    · rw [List.filter_cons_of_neg (by simpa using hgone), ih, List.lookup_cons,
        beq_eq_false_iff_ne.2 (hgone ▸ hne)]
    · rw [List.filter_cons_of_pos (by simpa using hgone), List.lookup_cons, List.lookup_cons, ih]

theorem lookup_filter_self (transports : List (String × TransportDescription)) (gone : String) :
    (transports.filter fun entry => decide (entry.1 ≠ gone)).lookup gone = none := by
  rw [List.lookup_eq_none_iff]
  intro entry hentry
  rw [bne_iff_ne]
  have hne : entry.1 ≠ gone := by simpa using (List.mem_filter.1 hentry).2
  exact hne.symm

theorem mem_of_get? {r : TransportRegistry} {name : String} {t : TransportDescription}
    (h : r.get? name = some t) : (name, t) ∈ r.transports := by
  obtain ⟨before, behind, hsplit, -⟩ := List.lookup_eq_some_iff.1 h
  rw [hsplit]
  exact List.mem_append_right _ List.mem_cons_self

end TransportRegistry

/-- A registry together with the disk on which it keeps its marks. -/
structure Registrar where
  registry : TransportRegistry
  disk : Disk

namespace Registrar

open TransportRegistry (initMark enter)

/-- What is done to a registry. -/
inductive Act where
  | register (t : TransportDescription)
  | unregister (name : String)
  /-- Mark a transport in the folder under which it is registered, or take the mark away. -/
  | mark (pending : Bool) (name : String)
  deriving DecidableEq

/-- The name that an act is about. -/
def Act.name : Act → String
  | .register t => t.name
  | .unregister name | .mark _ name => name

/-- Carry out an act. A registration answers whether the transport must be wiped first, dropping
a transport whether it was registered. Only a registered transport can be marked. -/
def act (s : Registrar) : Act → Except Fault (Option Bool) × Registrar
  | .register t =>
    let (answer, registry, disk) := s.registry.register t s.disk
    (answer.map some, ⟨registry, disk⟩)
  | .unregister name =>
    let (known, registry) := s.registry.unregister name
    (.ok (some known), { s with registry })
  | .mark pending name =>
    match s.registry.folderName name with
    | .error e => (.error e, s)
    | .ok folderName =>
      let (answer, registry, disk) := s.registry.setInitPending pending name folderName s.disk
      (answer.map fun _ => none, ⟨registry, disk⟩)

/-- Carry out acts one after the other. -/
def run (s : Registrar) (acts : List Act) : Registrar := acts.foldl (fun s a => (s.act a).2) s

/-- The folder of a transport. -/
def folder (s : Registrar) (t : TransportDescription) : Route :=
  s.registry.folderRoute t.folderName

/-- Whether the folder of a transport holds the mark. -/
def isMarked (s : Registrar) (t : TransportDescription) : Bool :=
  s.disk.existsAlong ((s.folder t).child initMark).names

/-- A folder that is not another one, and whose way does not lead through the other's mark. -/
def Clear (r other : Route) : Prop :=
  r.place ≠ other.place ∧ ∀ way ∈ r.names.tails, Route.placeOf way ≠ initMark :: other.place

instance (r other : Route) : Decidable (Clear r other) := inferInstanceAs (Decidable (_ ∧ _))

/-- Transports of different names have folders of their own. -/
def KeepsApart (s : Registrar) : Prop :=
  ∀ entry ∈ s.registry.transports, ∀ other ∈ s.registry.transports,
    entry.1 ≠ other.1 → Clear (s.folder entry.2) (s.folder other.2)

instance (s : Registrar) : Decidable s.KeepsApart :=
  inferInstanceAs (Decidable (∀ entry ∈ s.registry.transports,
    ∀ other ∈ s.registry.transports, _ → _))

/-- Every act succeeds, and the folders stay apart. -/
def Succeeds (s : Registrar) : List Act → Prop
  | [] => True
  | a :: acts =>
    (s.act a).1.toBool = true ∧ (s.act a).2.KeepsApart ∧ Succeeds (s.act a).2 acts

instance Succeeds.decidable (s : Registrar) : (acts : List Act) → Decidable (s.Succeeds acts)
  | [] => inferInstanceAs (Decidable True)
  | a :: acts =>
    have := Succeeds.decidable (s.act a).2 acts
    inferInstanceAs (Decidable (_ ∧ _ ∧ _))

/-- A registry without transports. -/
def fresh (root : String) (disk : Disk) : Registrar := ⟨{ root }, disk⟩

/-- The last act about a name registered it in a folder without a mark while it was marked. -/
def Displaced (s : Registrar) (acts : List Act) (name : String) : Prop :=
  ∃ before t later, acts = before ++ .register t :: later ∧ t.name = name ∧
    (s.run before).registry.isInitPending name = true ∧
    ((s.run before).act (.register t)).1.toOption = some (some false) ∧
    ∀ a ∈ later, a.name ≠ name

/-! ## Runs -/

theorem run_concat (s : Registrar) (acts : List Act) (a : Act) :
    s.run (acts ++ [a]) = ((s.run acts).act a).2 := by
  simp [run]

theorem succeeds_concat {s : Registrar} {acts : List Act} {a : Act} :
    s.Succeeds (acts ++ [a]) ↔
      s.Succeeds acts ∧ ((s.run acts).act a).1.toBool = true ∧
        ((s.run acts).act a).2.KeepsApart := by
  induction acts generalizing s with
  | nil => simp [Succeeds, run]
  | cons first acts ih =>
    rw [List.cons_append, Succeeds, Succeeds, ih, and_assoc, and_assoc]
    rfl

/-- A displaced transport stays so until an act is about it. -/
theorem displaced_concat_other {s : Registrar} {acts : List Act} {a : Act} {name : String}
    (hne : a.name ≠ name) : s.Displaced (acts ++ [a]) name ↔ s.Displaced acts name := by
  constructor
  · rintro ⟨before, t, later, hsplit, hname, hpending, hanswer, hlater⟩
    rcases List.eq_nil_or_concat later with rfl | ⟨later, last, rfl⟩
    · obtain ⟨rfl, rfl⟩ : acts = before ∧ a = .register t := by
        simpa using List.append_inj' hsplit rfl
      exact absurd hname hne
    · rw [List.concat_eq_append, ← List.cons_append, ← List.append_assoc] at hsplit
      obtain ⟨rfl, -⟩ := List.append_inj' hsplit rfl
      exact ⟨before, t, later, rfl, hname, hpending, hanswer,
        fun b hb => hlater b (by simp [hb])⟩
  · rintro ⟨before, t, later, rfl, hname, hpending, hanswer, hlater⟩
    refine ⟨before, t, later ++ [a], by simp, hname, hpending, hanswer, fun b hb => ?_⟩
    rcases List.mem_append.1 hb with hb | hb
    · exact hlater b hb
    · rw [List.mem_singleton.1 hb]
      exact hne

/-- Only a registration that finds no mark displaces the transport that it is about. -/
theorem displaced_concat_self {s : Registrar} {acts : List Act} {a : Act} :
    s.Displaced (acts ++ [a]) a.name ↔
      ∃ t, a = .register t ∧ (s.run acts).registry.isInitPending t.name = true ∧
        ((s.run acts).act a).1.toOption = some (some false) := by
  constructor
  · rintro ⟨before, t, later, hsplit, hname, hpending, hanswer, hlater⟩
    rcases List.eq_nil_or_concat later with rfl | ⟨later, last, rfl⟩
    · obtain ⟨rfl, rfl⟩ : acts = before ∧ a = .register t := by
        simpa using List.append_inj' hsplit rfl
      exact ⟨t, rfl, hpending, hanswer⟩
    · rw [List.concat_eq_append, ← List.cons_append, ← List.append_assoc] at hsplit
      obtain ⟨-, hlast⟩ := List.append_inj' hsplit rfl
      obtain rfl : a = last := by simpa using hlast
      exact absurd rfl (hlater a (by simp))
  · rintro ⟨t, rfl, hpending, hanswer⟩
    exact ⟨acts, t, [], rfl, rfl, hpending, hanswer, by simp⟩

/-! ## What an act does -/

/-- Every transport is registered under its own name, in a folder that is there. -/
structure Housed (s : Registrar) : Prop where
  named : ∀ {name t}, s.registry.get? name = some t → t.name = name
  there : ∀ {name t}, s.registry.get? name = some t → s.disk.lookAlong (s.folder t).names = .folder

/-- What a registration that succeeds does. -/
structure Registers (s : Registrar) (t : TransportDescription) (s' : Registrar) : Prop where
  answer : (s.act (.register t)).1 = .ok (some (s'.isMarked t))
  root : s'.registry.root = s.registry.root
  entered : s'.registry.transports = enter s.registry.transports t
  pendings : ∀ name, s'.registry.isInitPending name =
    (s.registry.isInitPending name || (decide (name = t.name) && s'.isMarked t))
  there : s'.disk.lookAlong (s'.folder t).names = .folder
  misses : ∀ path, (∀ way : Path, way <:+ (s.folder t).names → Route.placeOf way ≠ path) →
    s.disk.Changes (Disk.Effect.Misses path) s'.disk

/-- What marking a registered transport does, if it succeeds. -/
structure Marks (s : Registrar) (pending : Bool) (t : TransportDescription) (s' : Registrar) :
    Prop where
  root : s'.registry.root = s.registry.root
  entered : s'.registry.transports = s.registry.transports
  pendings : ∀ name, s'.registry.isInitPending name =
    if name = t.name then pending else s.registry.isInitPending name
  marked : s'.isMarked t = pending
  there : s'.disk.lookAlong (s'.folder t).names = .folder
  misses : ∀ path, path ≠ initMark :: (s.folder t).place →
    path ≠ (initMark ++ ".tmp") :: (s.folder t).place →
    s.disk.Changes (Disk.Effect.Misses path) s'.disk

theorem contains_insert (names : NameSet) (name other : String) :
    (names.insert name).contains other = (names.contains other || decide (other = name)) := by
  rw [Bool.eq_iff_iff, NameSet.contains_eq, NameSet.mem_insert, Bool.or_eq_true,
    NameSet.contains_eq, decide_eq_true_eq, or_comm]

theorem contains_erase (names : NameSet) (name other : String) :
    (names.erase name).contains other = (names.contains other && decide (other ≠ name)) := by
  rw [Bool.eq_iff_iff, NameSet.contains_eq, NameSet.mem_erase, Bool.and_eq_true,
    NameSet.contains_eq, decide_eq_true_eq]

/-- A mark is a name like any other. -/
theorem initMark_name : Route.isIdle initMark = false ∧ initMark ≠ ".." := by decide

theorem folder_of_root {s s' : Registrar} (h : s'.registry.root = s.registry.root)
    (t : TransportDescription) : s'.folder t = s.folder t := by
  simp only [folder, TransportRegistry.folderRoute, TransportRegistry.folderText, h]

theorem registers {s : Registrar} {t : TransportDescription}
    (h : (s.act (.register t)).1.toBool = true) :
    s.Registers t (s.act (.register t)).2 := by
  rcases hway : Store.makeWay s.disk (s.folder t) with ⟨_ | _, disk⟩
  · unfold act TransportRegistry.register at h
    simp only [folder] at hway h
    rw [hway] at h
    cases h
  · have hmade : s.disk.makeWay (s.folder t) = (.ok (), disk) := by
      rw [Store.makeWay] at hway
      rcases hmade : s.disk.makeWay (s.folder t) with ⟨_ | _, disk'⟩
      · rw [hmade] at hway; cases hway
      · rw [hmade] at hway; cases hway; rfl
    have hact : s.act (.register t) =
        (.ok (some (disk.existsAlong ((s.folder t).child initMark).names)),
          { registry :=
              { s.registry with
                transports := enter s.registry.transports t
                pendingInits :=
                  if disk.existsAlong ((s.folder t).child initMark).names then
                    s.registry.pendingInits.insert t.name
                  else s.registry.pendingInits }
            disk }) := by
      unfold act TransportRegistry.register
      simp only [folder] at hway ⊢
      rw [hway]
      rfl
    have hanswer := congrArg Prod.fst hact
    rw [hact]
    generalize hs' : Registrar.mk _ disk = s'
    have hroot : s'.registry.root = s.registry.root := by rw [← hs']
    have hfolder := folder_of_root hroot t
    have hdisk : s'.disk = disk := by rw [← hs']
    have hmarked : s'.isMarked t = disk.existsAlong ((s.folder t).child initMark).names := by
      rw [isMarked, hfolder, hdisk]
    refine ⟨hanswer.trans (by rw [hmarked]), hroot, by rw [← hs'], fun name => ?_, ?_,
      fun path hmiss => ?_⟩
    · rw [hmarked, ← hs', TransportRegistry.isInitPending, TransportRegistry.isInitPending]
      cases disk.existsAlong ((s.folder t).child initMark).names with
      | true => rw [if_pos rfl, contains_insert, Bool.and_true]
      | false => rw [if_neg Bool.false_ne_true, Bool.and_false, Bool.or_false]
    · rw [hfolder, hdisk]
      exact Disk.makeWay_ok hmade
    · have hchanges := s.disk.makeWay_changes (P := Disk.Effect.Misses path) hmiss
      rw [hmade] at hchanges
      rw [hdisk]
      exact hchanges

/-- The disk after the mark of a transport was set or taken away, and whether that worked. -/
def remark (s : Registrar) (pending : Bool) (t : TransportDescription) :
    Except Refusal Unit × Disk :=
  if pending then s.disk.replaceAlong ((s.folder t).child initMark) []
  else s.disk.removeAlong ((s.folder t).child initMark)

/-- An effect that names no more than the mark of a folder and its replacement. -/
def Remarks (place : Path) (effect : Disk.Effect) : Prop :=
  ∀ path, path ≠ initMark :: place → path ≠ (initMark ++ ".tmp") :: place → effect.Misses path

theorem remark_changes (s : Registrar) (pending : Bool) {t : TransportDescription}
    (hthere : s.disk.lookAlong (s.folder t).names = .folder) :
    s.disk.Changes (Remarks (s.folder t).place) (s.remark pending t).2 := by
  obtain ⟨hidle, hup⟩ := initMark_name
  cases pending with
  | true =>
    rw [remark, if_pos rfl]
    exact Disk.replaceAlong_child_changes hthere [] hidle hup (fun _ _ hbeside => hbeside.symm)
      (fun _ _ hbeside => hbeside.symm) (fun _ hne hbeside => ⟨hbeside.symm, hne.symm⟩)
      (fun _ _ hbeside => hbeside.symm)
  | false =>
    rw [remark, if_neg Bool.false_ne_true]
    refine s.disk.removeAlong_changes fun path hne _ => ?_
    rw [Route.place_child _ hidle hup]
    exact hne.symm

theorem act_mark {s : Registrar} {t : TransportDescription}
    (hget : s.registry.get? t.name = some t) (pending : Bool) :
    s.act (.mark pending t.name) =
      ((Store.toFault (s.remark pending t).1).map fun _ => none,
        { registry :=
            { s.registry with
              pendingInits :=
                if pending then s.registry.pendingInits.insert t.name
                else s.registry.pendingInits.erase t.name }
          disk := (s.remark pending t).2 }) := by
  cases pending <;>
    simp only [act, TransportRegistry.folderName, hget, TransportRegistry.setInitPending,
      Store.replaceAlong, Store.removeAlong, remark, folder, Bool.false_eq_true, if_false, if_true]

theorem marks {s : Registrar} {pending : Bool} {name : String} (hs : s.Housed)
    (h : (s.act (.mark pending name)).1.toBool = true) :
    ∃ t, s.registry.get? name = some t ∧ s.Marks pending t (s.act (.mark pending name)).2 := by
  cases hget : s.registry.get? name with
  | none => simp [act, TransportRegistry.folderName, hget, Except.toBool] at h
  | some t =>
    refine ⟨t, rfl, ?_⟩
    obtain rfl := hs.named hget
    have hthere := hs.there hget
    obtain ⟨hidle, hup⟩ := initMark_name
    rcases hremark : s.remark pending t with ⟨outcome, disk⟩
    rw [act_mark hget, hremark] at h ⊢
    obtain rfl : outcome = .ok () := by
      cases outcome with
      | error refusal => cases h
      | ok _ => rfl
    have hchanges : s.disk.Changes (Remarks (s.folder t).place) disk := by
      have hchanges := s.remark_changes pending hthere
      rw [hremark] at hchanges
      exact hchanges
    refine ⟨rfl, rfl, fun name => ?_, ?_, hchanges.lookAlong_folder hthere,
      fun path hne hbeside => hchanges.mono fun effect heffect => heffect path hne hbeside⟩
    · show (ite _ _ _ : NameSet).contains name =
        if name = t.name then pending else s.registry.pendingInits.contains name
      cases pending with
      | true =>
        rw [if_pos rfl, contains_insert]
        by_cases hname : name = t.name <;> simp [hname]
      | false =>
        rw [if_neg Bool.false_ne_true, contains_erase]
        by_cases hname : name = t.name <;> simp [hname]
    · show disk.existsAlong ((s.folder t).child initMark).names = pending
      cases pending with
      | true =>
        rw [remark, if_pos rfl] at hremark
        exact Disk.replaceAlong_child_ok hthere hidle hup hremark
      | false =>
        rw [remark, if_neg Bool.false_ne_true] at hremark
        exact Disk.removeAlong_child_ok hthere hidle hup hremark

/-! ## What an act leaves alone -/

theorem get?_of_entered {s s' : Registrar} {t : TransportDescription}
    (h : s'.registry.transports = enter s.registry.transports t) (name : String) :
    s'.registry.get? name = if name = t.name then some t else s.registry.get? name := by
  rw [TransportRegistry.get?, h, TransportRegistry.lookup_enter]
  rfl

/-- An act that leaves the transport of another name as it is. -/
structure Spares (s s' : Registrar) (name : String) : Prop where
  root : s'.registry.root = s.registry.root
  get? : s'.registry.get? name = s.registry.get? name
  pending : s'.registry.isInitPending name = s.registry.isInitPending name
  there : ∀ {t}, s.registry.get? name = some t → s'.disk.lookAlong (s'.folder t).names = .folder
  marked : ∀ {t}, s.registry.get? name = some t → s'.isMarked t = s.isMarked t

/-- What does not touch the mark of a transport leaves the transport as it is. -/
theorem Spares.of_misses {s s' : Registrar} {name : String} (hs : s.Housed)
    (hroot : s'.registry.root = s.registry.root)
    (hget : s'.registry.get? name = s.registry.get? name)
    (hpending : s'.registry.isInitPending name = s.registry.isInitPending name)
    (h : ∀ t, s.registry.get? name = some t →
      s.disk.Changes (Disk.Effect.Misses (initMark :: (s.folder t).place)) s'.disk) :
    s.Spares s' name := by
  obtain ⟨hidle, hup⟩ := initMark_name
  refine ⟨hroot, hget, hpending, fun {t} ht => ?_, fun {t} ht => ?_⟩
  · rw [folder_of_root hroot]
    exact (h t ht).lookAlong_folder (hs.there ht)
  · rw [isMarked, isMarked, folder_of_root hroot]
    exact Disk.Changes.existsAlong_child (hs.there ht) hidle hup (h t ht)

/-- **An act leaves the transports of other names as they are.** -/
theorem spares {s : Registrar} {a : Act} {name : String} (hs : s.Housed)
    (h : (s.act a).1.toBool = true) (hapart : (s.act a).2.KeepsApart) (hne : a.name ≠ name) :
    s.Spares (s.act a).2 name := by
  cases a with
  | register t =>
    have hdone := registers h
    have hother : name ≠ t.name := hne.symm
    have hget := get?_of_entered hdone.entered
    refine .of_misses hs hdone.root ((hget name).trans (if_neg hother)) ?_ fun u hu => ?_
    · rw [hdone.pendings, decide_eq_false hother, Bool.false_and, Bool.or_false]
    · have ht := TransportRegistry.mem_of_get? ((hget t.name).trans (if_pos rfl))
      have hu' := TransportRegistry.mem_of_get? ((hget name).trans ((if_neg hother).trans hu))
      obtain ⟨-, hclear⟩ := hapart _ ht _ hu' hne
      rw [folder_of_root hdone.root, folder_of_root hdone.root] at hclear
      exact hdone.misses _ fun way hway => hclear way ((List.mem_tails _ _).2 hway)
  | unregister gone =>
    have hother : name ≠ gone := hne.symm
    by_cases hknown : s.registry.isRegistered gone = true
    · refine .of_misses hs ?_ ?_ ?_ fun u _ => ?_
      · simp only [act, TransportRegistry.unregister, hknown, if_true]
      · simp only [act, TransportRegistry.unregister, hknown, if_true, TransportRegistry.get?]
        exact TransportRegistry.lookup_filter_ne _ hother
      · simp only [act, TransportRegistry.unregister, hknown, if_true,
          TransportRegistry.isInitPending]
        rw [contains_erase, decide_eq_true hother, Bool.and_true]
      · exact .refl
    · refine .of_misses hs ?_ ?_ ?_ fun u _ => .refl <;>
        simp only [act, TransportRegistry.unregister, hknown, Bool.false_eq_true, if_false]
  | mark pending marked =>
    obtain ⟨t, ht, hdone⟩ := marks hs h
    obtain rfl := hs.named ht
    have hother : name ≠ t.name := hne.symm
    have hget : ∀ other, (s.act (.mark pending t.name)).2.registry.get? other =
        s.registry.get? other := by
      intro other
      rw [TransportRegistry.get?, hdone.entered]
      rfl
    refine .of_misses hs hdone.root (hget name) ?_ fun u hu => ?_
    · rw [hdone.pendings, if_neg hother]
    · have ht' := TransportRegistry.mem_of_get? ((hget t.name).trans ht)
      have hu' := TransportRegistry.mem_of_get? ((hget name).trans hu)
      obtain ⟨hplace, -⟩ := hapart _ ht' _ hu' hne
      rw [folder_of_root hdone.root, folder_of_root hdone.root] at hplace
      refine hdone.misses _ (fun heq => hplace ?_) (fun heq => ?_)
      · exact (List.cons.inj heq).2.symm
      · exact absurd (List.cons.inj heq).1 (by decide)

/-- A dropped transport is not registered any more. -/
theorem get?_unregister (s : Registrar) (name : String) :
    (s.act (.unregister name)).2.registry.get? name = none := by
  by_cases hknown : s.registry.isRegistered name = true
  · simp only [act, TransportRegistry.unregister, hknown, if_true, TransportRegistry.get?]
    exact TransportRegistry.lookup_filter_self _ _
  · simp only [act, TransportRegistry.unregister, hknown, Bool.false_eq_true, if_false]
    simpa [TransportRegistry.isRegistered] using hknown

theorem Housed.act {s : Registrar} {a : Act} (hs : s.Housed) (h : (s.act a).1.toBool = true)
    (hapart : (s.act a).2.KeepsApart) : (s.act a).2.Housed := by
  suffices hsuffices : ∀ name t, (s.act a).2.registry.get? name = some t →
      t.name = name ∧ (s.act a).2.disk.lookAlong ((s.act a).2.folder t).names = .folder from
    ⟨fun ht => (hsuffices _ _ ht).1, fun ht => (hsuffices _ _ ht).2⟩
  intro name t ht
  by_cases hname : a.name = name
  · subst hname
    cases a with
    | register u =>
      have hdone := registers h
      obtain rfl : u = t := by simpa [get?_of_entered hdone.entered, Act.name] using ht
      exact ⟨rfl, hdone.there⟩
    | unregister gone => simp [get?_unregister, Act.name] at ht
    | mark pending marked =>
      obtain ⟨u, hu, hdone⟩ := marks hs h
      rw [TransportRegistry.get?, hdone.entered] at ht
      obtain rfl : u = t := Option.some.inj (hu.symm.trans ht)
      exact ⟨hs.named hu, hdone.there⟩
  · have hspared := spares hs h hapart hname
    rw [hspared.get?] at ht
    exact ⟨hs.named ht, hspared.there ht⟩

/-! ## Memory and disk -/

theorem Succeeds.housed {root : String} {disk : Disk} {acts : List Act}
    (h : (fresh root disk).Succeeds acts) : ((fresh root disk).run acts).Housed := by
  induction acts using List.reverseRecOn with
  | nil => exact ⟨nofun, nofun⟩
  | append_singleton acts a ih =>
    obtain ⟨hbefore, hanswer, hapart⟩ := succeeds_concat.1 h
    rw [run_concat]
    exact (ih hbefore).act hanswer hapart

/-- A registered transport is listed once, as what it is. -/
theorem mem_states {s : Registrar} (hs : s.Housed) {name : String} {t : TransportDescription}
    (ht : s.registry.get? name = some t) (entry : TransportState) :
    entry ∈ s.registry.states ∧ entry.name = name ↔ entry = s.registry.stateOf t := by
  constructor
  · rintro ⟨hentry, hname⟩
    obtain ⟨other, -, hother⟩ := List.mem_filterMap.1 hentry
    obtain ⟨u, hu, rfl⟩ := Option.map_eq_some_iff.1 hother
    obtain rfl : other = name := (hs.named hu).symm.trans hname
    rw [Option.some.inj (hu.symm.trans ht)]
  · rintro rfl
    refine ⟨List.mem_filterMap.2 ⟨name, ?_, by rw [ht]; rfl⟩, hs.named ht⟩
    rw [TransportRegistry.names, ← NameSet.mem_def, NameSet.mem_ofList]
    exact List.mem_map.2 ⟨_, TransportRegistry.mem_of_get? ht, rfl⟩

/-- Memory knows every mark, and what it knows beyond them was displaced. -/
theorem agree_iff {root : String} {disk : Disk} {acts : List Act}
    (h : (fresh root disk).Succeeds acts) {name : String} {t : TransportDescription}
    (ht : ((fresh root disk).run acts).registry.get? name = some t) :
    (((fresh root disk).run acts).isMarked t = true →
        ((fresh root disk).run acts).registry.isInitPending name = true) ∧
      (((fresh root disk).run acts).registry.isInitPending name =
          ((fresh root disk).run acts).isMarked t ↔
        ¬ (fresh root disk).Displaced acts name) := by
  induction acts using List.reverseRecOn with
  | nil => cases ht
  | append_singleton acts a ih =>
    obtain ⟨hbefore, hanswer, hapart⟩ := succeeds_concat.1 h
    have hs := hbefore.housed
    rw [run_concat] at ht ⊢
    generalize hrun : (fresh root disk).run acts = s at *
    by_cases hname : a.name = name
    · subst hname
      rw [displaced_concat_self, hrun]
      cases a with
      | register u =>
        have hdone := registers hanswer
        obtain rfl : u = t := by simpa [get?_of_entered hdone.entered, Act.name] using ht
        rw [hdone.answer, Act.name, hdone.pendings, decide_eq_true rfl, Bool.true_and]
        cases (s.act (.register u)).2.isMarked u <;>
          cases hpending : s.registry.isInitPending u.name <;>
          simp [Except.toOption, hpending]
      | unregister gone => simp [get?_unregister, Act.name] at ht
      | mark pending marked =>
        obtain ⟨u, hu, hdone⟩ := marks hs hanswer
        rw [TransportRegistry.get?, hdone.entered] at ht
        obtain rfl : u = t := Option.some.inj (hu.symm.trans ht)
        obtain rfl := hs.named hu
        rw [hdone.marked, Act.name, hdone.pendings, if_pos rfl]
        exact ⟨id, by simp⟩
    · have hspared := spares hs hanswer hapart hname
      rw [hspared.get?] at ht
      rw [displaced_concat_other hname, hspared.pending, hspared.marked ht]
      exact ih hbefore ht

/-- **The marks in memory mirror those on the disk.** After every run of acts that succeed, a
registered transport has one entry in the list of transports, which says whether it must be wiped;
a transport that is marked on the disk must be wiped; what must be wiped is marked on the disk,
and the other way round, exactly if the transport is not displaced; and a registration answers
whether there is a mark. -/
theorem marks_mirrored {root : String} {disk : Disk} {acts : List Act}
    (h : (fresh root disk).Succeeds acts) {name : String} {t : TransportDescription}
    (ht : ((fresh root disk).run acts).registry.get? name = some t) :
    let s := (fresh root disk).run acts
    (∀ entry, entry ∈ s.registry.states ∧ entry.name = name ↔ entry = s.registry.stateOf t) ∧
    (s.registry.stateOf t).pendingInit = s.registry.isInitPending name ∧
    (s.isMarked t = true → s.registry.isInitPending name = true) ∧
    (s.registry.isInitPending name = s.isMarked t ↔ ¬ (fresh root disk).Displaced acts name) ∧
    ∀ before, acts = before ++ [.register t] →
      (((fresh root disk).run before).act (.register t)).1 = .ok (some (s.isMarked t)) := by
  intro s
  obtain ⟨hmemory, hagree⟩ := agree_iff h ht
  refine ⟨mem_states h.housed ht, ?_, hmemory, hagree, fun before hsplit => ?_⟩
  · exact congrArg s.registry.isInitPending (h.housed.named ht)
  · subst hsplit
    obtain ⟨-, hanswer, -⟩ := succeeds_concat.1 h
    have hrun : s = (((fresh root disk).run before).act (.register t)).2 := run_concat _ _ _
    rw [hrun]
    exact (registers hanswer).answer

/-- A transport in a folder of its own. -/
def transportIn (name folderName : String) : TransportDescription :=
  ⟨name, "com.example.transport/.Service", folderName⟩

/-- Two transports are marked; one is dropped and registered again, the other one moves. -/
def movedActs : List Act :=
  [.register (transportIn "local" "one"), .register (transportIn "remote" "two"),
    .mark true "local", .mark true "remote", .unregister "remote",
    .register (transportIn "remote" "two"), .register (transportIn "local" "three")]

/-- The dropped transport finds its mark again, the moved one is displaced. -/
theorem marks_mirrored_moved :
    let start := fresh "/state" {}
    start.Succeeds movedActs ∧
      (start.run movedActs).registry.get? "remote" = some (transportIn "remote" "two") ∧
      (start.run movedActs).registry.get? "local" = some (transportIn "local" "three") ∧
      ¬ start.Displaced movedActs "remote" ∧ start.Displaced movedActs "local" := by
  intro start
  have hsucceeds : start.Succeeds movedActs := by decide +kernel
  have hremote : (start.run movedActs).registry.get? "remote" =
      some (transportIn "remote" "two") := by decide +kernel
  have hlocal : (start.run movedActs).registry.get? "local" =
      some (transportIn "local" "three") := by decide +kernel
  obtain ⟨-, -, -, hagree, -⟩ := marks_mirrored hsucceeds hremote
  obtain ⟨-, -, -, hagree', -⟩ := marks_mirrored hsucceeds hlocal
  refine ⟨hsucceeds, hremote, hlocal, hagree.1 (by decide +kernel), ?_⟩
  exact Classical.byContradiction fun hno => absurd (hagree'.2 hno) (by decide +kernel)

/-- **A mark in memory outlives the move to a folder without one.** The registration finds no
mark, and yet the transport must be wiped. -/
theorem mark_outlives_move :
    let start := fresh "/state" {}
    let acts : List Act := [.register (transportIn "local" "one"), .mark true "local"]
    let moved := transportIn "local" "two"
    let s := start.run (acts ++ [.register moved])
    start.Succeeds (acts ++ [.register moved]) ∧ s.registry.get? "local" = some moved ∧
      ((start.run acts).act (.register moved)).1.toOption = some (some false) ∧
      s.isMarked moved = false ∧ s.registry.isInitPending "local" = true ∧
      ∃ entry ∈ s.registry.states, entry.name = "local" ∧ entry.pendingInit = true := by
  decide +kernel

end Registrar

end Holdfast
