import Holdfast.Proofs.Engine.StockWork
import Holdfast.Proofs.Engine.Drained

/-!
# Which dataset is offered for a package

A package is restored from the dataset that is being written if it is known to be in it. Both the
token of that dataset and the packages in it come from whatever transport a pass was bound to or a
selection asked, which need not be the one that is selected.

- `Stock.mem_packages_iff`: the packages are those that some transport accepted since the last wipe;
- `World.live_origin`: the token was disclosed last by some transport, and where that transport lags
  behind the selection, a selection is on its way or was dropped, or the transport was not selected
  either when it answered;
- `World.token_disclosed` and `World.offer_accepted`: **where the token and the offers come from**;
- `World.token_of_other` and `World.offer_of_other`: both can come from a transport that is not
  selected.
-/

namespace Holdfast

/-! ## The packages and the selection -/

namespace Stock

variable {stock : Stock} {package : String}

theorem mem_record {stock : Stock} {package other : String} :
    other ∈ (stock.record package).packages ↔
      other ∈ stock.packages ∨ (other = package ∧ package ≠ metadataPackage) := by
  unfold record
  by_cases hmetadata : package = metadataPackage
  · simp [hmetadata]
  · rw [if_neg hmetadata, NameSet.mem_insert]
    simp [hmetadata, or_comm]

/-- A package was accepted by some transport, and no transport was wiped since. -/
def Accepted (news : List News) (package : String) : Prop :=
  ∃ before after transport, news = before ++ .accepts transport package :: after ∧ .forgets ∉ after

theorem accepted_concat {news : List News} {last : News} :
    Accepted (news ++ [last]) package ↔
      (∃ transport, last = .accepts transport package) ∨
        (last ≠ .forgets ∧ Accepted news package) := by
  constructor
  · rintro ⟨before, after, transport, hsplit, hnone⟩
    rcases List.eq_nil_or_concat' after with rfl | ⟨after, other, rfl⟩
    · obtain ⟨-, hsame⟩ := List.append_inj' hsplit rfl
      cases hsame
      exact .inl ⟨transport, rfl⟩
    · rw [← List.cons_append, ← List.append_assoc] at hsplit
      obtain ⟨rfl, hsame⟩ := List.append_inj' hsplit rfl
      cases hsame
      refine .inr ⟨?_, before, after, transport, rfl, fun h => hnone (List.mem_append_left _ h)⟩
      rintro rfl
      exact hnone (List.mem_append_right _ List.mem_cons_self)
  · rintro (⟨transport, rfl⟩ | ⟨hlast, before, after, transport, rfl, hnone⟩)
    · exact ⟨news, [], transport, rfl, List.not_mem_nil⟩
    · refine ⟨before, after ++ [last], transport, by simp, fun h => ?_⟩
      rcases List.mem_append.1 h with hmem | hmem
      · exact hnone hmem
      · exact hlast (List.mem_singleton.1 hmem).symm

/-- **The packages are those that were accepted since the last wipe**, apart from the metadata. -/
theorem mem_packages_iff (hempty : stock.packages = .empty) (news : List News) :
    package ∈ (news.foldl hear stock).packages ↔
      package ≠ metadataPackage ∧ Accepted news package := by
  induction news using List.reverseRecOn with
  | nil => simp [hempty, Accepted]
  | append_singleton news last ih =>
    rw [List.foldl_concat, accepted_concat]
    cases last with
    | nothing | selects _ | selectsUnknown _ | discloses _ _ => simpa [hear] using ih
    | accepts transport accepted =>
      rw [hear, mem_record, ih]
      constructor
      · rintro (⟨hnot, hold⟩ | ⟨rfl, hnot⟩)
        · exact ⟨hnot, .inr ⟨by simp, hold⟩⟩
        · exact ⟨hnot, .inl ⟨transport, rfl⟩⟩
      · rintro ⟨hnot, ⟨_, hsame⟩ | ⟨-, hold⟩⟩
        · cases hsame
          exact .inr ⟨rfl, hnot⟩
        · exact .inl ⟨hnot, hold⟩
    | forgets => simp [hear]

theorem hear_selected (stock : Stock) (news : News) :
    (stock.hear news).selected = news.selected?.or stock.selected := by
  cases news with
  | accepts transport package =>
    show (stock.record package).selected = stock.selected
    unfold record
    split <;> rfl
  | nothing | selects | selectsUnknown | discloses | forgets => rfl

/-- The selection is as before, or it is one that was made since. -/
theorem selected_cases (stock : Stock) (news : List News) :
    (news.foldl hear stock).selected = stock.selected ∨
      ∃ name, (news.foldl hear stock).selected = some name ∧
        ∃ one ∈ news, one.selected? = some name := by
  induction news using List.reverseRecOn with
  | nil => exact .inl rfl
  | append_singleton news last ih =>
    rw [List.foldl_concat, hear_selected]
    cases hlast : last.selected? with
    | some name => exact .inr ⟨name, rfl, last, List.mem_append_right _ List.mem_cons_self, hlast⟩
    | none =>
      rcases ih with hsame | ⟨name, hname, one, hone, hselects⟩
      · exact .inl hsame
      · exact .inr ⟨name, hname, one, List.mem_append_left _ hone, hselects⟩

/-- News of anything else leaves the token alone. -/
theorem hear_current (stock : Stock) {news : News} (h : news.isOfCurrent = false) :
    (stock.hear news).current = stock.current := by
  cases news with
  | selectsUnknown | discloses | forgets => cases h
  | accepts transport package =>
    show (stock.record package).current = stock.current
    unfold record
    split <;> rfl
  | nothing | selects => rfl

end Stock

/-! ## Where the token comes from -/

namespace System

variable {s : System} {t : Task} {transport name : String} {token : UInt64}

theorem datasetNews_discloses (h : s.datasetNews transport = .discloses name token) :
    (s.device.station name).restoreSet = .ok token := by
  unfold datasetNews at h
  split at h
  · rename_i heq
    split at h
    · cases h
    · cases h
      exact heq
  · cases h

/-- Only a pass that asked discloses a dataset: no other call of a task does. -/
theorem news_discloses (h : s.news t = .discloses name token) :
    (s.device.station name).restoreSet = .ok token := by
  have hpass : ∀ call,
      (if call = .currentRestoreSet then s.datasetNews t.transport
        else if (s.device.answer t.transport call).1 = .ok .ok then passNews t.transport call
        else .nothing) = .discloses name token →
      (s.device.station name).restoreSet = .ok token := by
    intro call h
    split at h
    · exact datasetNews_discloses h
    · split at h
      · unfold passNews at h
        split at h <;> cases h
      · cases h
  unfold news at h
  split at h
  · rename_i call _
    unfold replyNews at h
    split at h
    · exact hpass call h
    · exact hpass call h
    · split at h <;> cases h
    · cases h
    · cases h
  · cases h

/-- No task selects a transport. -/
theorem news_ne_selects : s.news t ≠ .selects name := by
  have hdataset : s.datasetNews t.transport ≠ .selects name := by
    unfold datasetNews
    split
    · split <;> nofun
    · nofun
  have hpass : ∀ call, (if call = .currentRestoreSet then s.datasetNews t.transport
      else if (s.device.answer t.transport call).1 = .ok .ok then passNews t.transport call
      else .nothing) ≠ .selects name := by
    intro call
    split
    · exact hdataset
    · split
      · unfold passNews
        split <;> nofun
      · nofun
  unfold news
  split
  · unfold replyNews
    split
    · exact hpass _
    · exact hpass _
    · split <;> nofun
    · nofun
    · nofun
  · nofun

end System

namespace World

variable {w : World} {i : Incident} {name : String} {token : UInt64}

/-- A transport that discloses a dataset said so. -/
theorem restoreSet_of_discloses (h : w.news i = .discloses name token) (htoken : token ≠ 0) :
    (w.system.device.station name).restoreSet = .ok token := by
  cases i with
  | shutdown => cases h
  | event event =>
    cases event with
    | task number =>
      simp only [news] at h
      split at h
      · split at h
        · exact System.news_discloses h
        · cases h
      · cases h
    | land index =>
      simp only [news] at h
      split at h
      · cases h
        unfold System.datasetOf at htoken ⊢
        simp only at htoken ⊢
        split
        · assumption
        · rename_i heq
          rw [heq] at htoken
          exact absurd rfl htoken
      · cases h
      · cases h
    | select name =>
      simp only [news] at h
      split at h
      · split at h <;> cases h
      · cases h
    | call c => cases c <;> cases h
    | command | operation | timers | clock | sendBack | wake | sets | drop | outside => cases h

/-- A selection of a registered transport waits for an answer. -/
theorem flight_of_selects (h : w.news i = .selects name) :
    ∃ lease, lease.transport = name ∧ Flight.select lease ∈ (w.meet i).flights := by
  cases i with
  | shutdown => cases h
  | event event =>
    cases event with
    | select chosen =>
      simp only [news] at h
      split at h
      · rename_i hallowed
        split at h
        · rename_i hknown
          have hselected : (w.system.onEngine fun e => { e with
            transports := e.transports.select chosen }).engine.transports.isRegistered chosen =
              true := hknown
          simp only [meet, happen, System.beginSelect, System.askDataset, if_pos hallowed]
          unfold TransportRegistry.lease
          simp only [if_pos hselected]
          cases h
          exact ⟨_, rfl, List.mem_cons_self⟩
        · cases h
      · cases h
    | task number =>
      simp only [news] at h
      split at h
      · split at h
        · exact absurd h System.news_ne_selects
        · cases h
      · cases h
    | land index =>
      simp only [news] at h
      split at h <;> cases h
    | call c => cases c <;> cases h
    | command | operation | timers | clock | sendBack | wake | sets | drop | outside => cases h

/-- The caller of a selection drops it before its transport has answered. -/
def Drops (w : World) (lease : Lease) (i : Incident) : Prop :=
  ∃ index, i = .event (.drop index) ∧ w.flights[index]? = some (.select lease)

/-- A selection of a transport was dropped along a run, before that transport had answered. -/
def DroppedAlong (w : World) (name : String) (incidents : List Incident) : Prop :=
  ∃ before i after lease, incidents = before ++ i :: after ∧ lease.transport = name ∧
    (w.live before).Drops lease i

theorem DroppedAlong.concat {incidents : List Incident} (h : w.DroppedAlong name incidents) :
    w.DroppedAlong name (incidents ++ [i]) := by
  obtain ⟨before, j, after, lease, rfl, hname, hdrops⟩ := h
  exact ⟨before, j, after ++ [i], lease, by simp, hname, hdrops⟩

/-- A selection waits until its transport has answered or its caller drops it. -/
theorem flight_kept {lease : Lease} (hflight : Flight.select lease ∈ w.flights)
    (h : (w.news i).isOfCurrent = false) :
    Flight.select lease ∈ (w.meet i).flights ∨ w.Drops lease i := by
  obtain ⟨place, hplace⟩ := List.getElem?_of_mem hflight
  -- taking out another call leaves this one
  have hothers : ∀ index, index ≠ place → Flight.select lease ∈ w.flights.eraseIdx index :=
    fun index hother => List.mem_eraseIdx_iff_getElem?.2 ⟨place, hother.symm, hplace⟩
  cases i with
  | shutdown => exact .inl hflight
  | event event =>
    cases event with
    | land index =>
      refine .inl ?_
      simp only [meet, happen, news] at h ⊢
      cases hlands : w.flights[index]? with
      | none => exact hflight
      | some flight =>
        -- only the answer to this very selection would end it, and that is news of the token
        rw [hlands] at h
        refine hothers index ?_
        rintro rfl
        cases hlands.symm.trans hplace
        cases h
    | drop index =>
      by_cases hthis : index = place
      · exact .inr ⟨index, rfl, hthis ▸ hplace⟩
      · refine .inl ?_
        simp only [meet, happen]
        split
        · exact hflight
        · exact hothers index hthis
    | select chosen =>
      refine .inl ?_
      simp only [meet, happen]
      split
      · exact List.mem_cons_of_mem _ hflight
      · exact hflight
      · exact hflight
    | sets session =>
      refine .inl ?_
      simp only [meet, happen]
      split
      · exact List.mem_cons_of_mem _ hflight
      · exact hflight
    | command =>
      refine .inl ?_
      simp only [meet, happen]
      split <;> exact hflight
    | operation =>
      refine .inl ?_
      simp only [meet, happen]
      split <;> exact hflight
    | task number =>
      refine .inl ?_
      simp only [meet, happen]
      split
      · exact hflight
      · split <;> exact hflight
    | timers | clock | sendBack | wake | call | outside => exact .inl hflight

/-- **The token was disclosed last by some transport.** If that is not the transport that is
selected, it was not selected when it answered either, unless the selection of the one that is waits
for an answer, or was dropped before it got one. -/
theorem live_origin (hw : w.Orderly) (hzero : w.system.stock.current = 0)
    (incidents : List Incident) :
    (w.live incidents).system.stock.current = 0 ∨
      ∃ before i after name, incidents = before ++ i :: after ∧
        (w.live before).news i = .discloses name (w.live incidents).system.stock.current ∧
        (∀ news ∈ ((w.live before).meet i).tidings after, news.isOfCurrent = false) ∧
        ((w.live incidents).system.stock.selected = some name ∨
          (w.live before).system.stock.selected ≠ some name ∨
          ∃ lease, (w.live incidents).system.stock.selected = some lease.transport ∧
            (Flight.select lease ∈ (w.live incidents).flights ∨
              ((w.live before).meet i).DroppedAlong lease.transport after)) := by
  induction incidents using List.reverseRecOn with
  | nil => exact .inl hzero
  | append_singleton incidents i ih =>
    have hstep := meet_stock (hw.live incidents) i
    have hselected := Stock.hear_selected (w.live incidents).system.stock
      ((w.live incidents).news i)
    rw [live_concat, hstep]
    -- either the incident is about the token, or the token is that of the run so far
    cases hkind : ((w.live incidents).news i).isOfCurrent with
    | true =>
      cases hnews : (w.live incidents).news i with
      | nothing | selects | accepts => rw [hnews] at hkind; cases hkind
      | selectsUnknown | forgets => exact .inl rfl
      | discloses name token =>
        refine .inr ⟨incidents, i, [], name, rfl, hnews, fun _ h => absurd h List.not_mem_nil, ?_⟩
        by_cases hcurrent : (w.live incidents).system.stock.selected = some name
        · exact .inl hcurrent
        · exact .inr (.inl hcurrent)
    | false =>
      rw [Stock.hear_current _ hkind]
      rcases ih with hnone | ⟨before, j, after, name, rfl, hdiscloses, hquiet, hlag⟩
      · exact .inl hnone
      · rw [live_append] at hkind hselected hdiscloses hlag ⊢
        refine .inr ⟨before, j, after ++ [i], name, by simp, hdiscloses, ?_, ?_⟩
        · intro news hnews
          rw [tidings_concat] at hnews
          rcases List.mem_append.1 hnews with hold | hlast
          · exact hquiet news hold
          · rw [List.mem_singleton.1 hlast]
            exact hkind
        · cases hnews : ((w.live before).live (j :: after)).news i with
          | selectsUnknown | discloses | forgets => rw [hnews] at hkind; cases hkind
          -- the selection has moved on, and the transport has not answered yet
          | selects other =>
            obtain ⟨lease, rfl, hflight⟩ := flight_of_selects hnews
            rw [hnews] at hselected
            exact .inr (.inr ⟨lease, hselected, .inl hflight⟩)
          | nothing | accepts =>
            rw [hnews] at hkind hselected
            rcases hlag with hcurrent | helse | ⟨lease, hlease, hwaits⟩
            · exact .inl (hselected.trans hcurrent)
            · exact .inr (.inl helse)
            · refine .inr (.inr ⟨lease, hselected.trans hlease, ?_⟩)
              rcases hwaits with hflight | hdropped
              · refine (flight_kept hflight (hnews ▸ hkind)).imp_right fun hdrops => ?_
                exact ⟨after, i, [], lease, rfl, rfl, hdrops⟩
              · exact .inr hdropped.concat

/-! ## The news at a place of the run -/

/-- Some news along a run was brought by an incident of the run. -/
theorem tidings_split {incidents : List Incident} {before after : List News} {one : News}
    (h : w.tidings incidents = before ++ one :: after) :
    ∃ earlier i later, incidents = earlier ++ i :: later ∧
      w.tidings earlier = before ∧ (w.live earlier).news i = one ∧
      ((w.live earlier).meet i).tidings later = after := by
  induction incidents generalizing w before with
  | nil => exact absurd h (by simp [tidings])
  | cons i incidents ih =>
    cases before with
    | nil =>
      obtain ⟨hfirst, hrest⟩ := List.cons.inj h
      exact ⟨[], i, incidents, rfl, rfl, hfirst, hrest⟩
    | cons first before =>
      obtain ⟨hfirst, hrest⟩ := List.cons.inj h
      obtain ⟨earlier, j, later, rfl, hbefore, hone, hafter⟩ := ih hrest
      refine ⟨i :: earlier, j, later, rfl, ?_, hone, hafter⟩
      rw [tidings, hfirst, hbefore]

/-- A package that is known to be backed up was accepted by some transport. If that is not the
transport that is selected, another one has been selected since, or it was not selected either when
it accepted the package. -/
theorem live_accepted (hw : w.Orderly) (hempty : w.system.stock.packages = .empty)
    {incidents : List Incident} {package : String}
    (hknown : package ∈ (w.live incidents).system.stock.packages) :
    ∃ before i after name, incidents = before ++ i :: after ∧
      (w.live before).news i = .accepts name package ∧
      .forgets ∉ ((w.live before).meet i).tidings after ∧
      ((w.live incidents).system.stock.selected = some name ∨
        (w.live before).system.stock.selected ≠ some name ∨
        ∃ other, other ≠ name ∧ (w.live incidents).system.stock.selected = some other ∧
          ∃ news ∈ ((w.live before).meet i).tidings after, news.selected? = some other) := by
  rw [live_stock hw, Stock.mem_packages_iff hempty] at hknown
  obtain ⟨-, _, _, name, hsplit, hnone⟩ := hknown
  obtain ⟨before, i, after, rfl, -, haccepts, rfl⟩ := tidings_split hsplit
  refine ⟨before, i, after, name, rfl, haccepts, hnone, ?_⟩
  have hsince : (w.live (before ++ i :: after)).system.stock =
      (((w.live before).meet i).tidings after).foldl Stock.hear
        ((w.live before).system.stock.hear (.accepts name package)) := by
    rw [live_append, ← haccepts, ← meet_stock (hw.live before) i]
    exact live_stock ((hw.live before).meet i) after
  by_cases hthen : (w.live before).system.stock.selected = some name
  · rw [hsince]
    rcases Stock.selected_cases
        ((w.live before).system.stock.hear (.accepts name package))
        (((w.live before).meet i).tidings after) with hsame | ⟨other, hother, hselects⟩
    · exact .inl (hsame.trans ((Stock.hear_selected _ _).trans hthen))
    · by_cases heq : other = name
      · exact .inl (heq ▸ hother)
      · exact .inr (.inr ⟨other, heq, hother, hselects⟩)
  · exact .inr (.inl hthen)

/-! ## Tokens and offers of an engine -/

/-- **Where the token comes from**, while no selection waits for an answer. It is zero, or some
transport said that this is the dataset it is writing, and nothing has changed it since. That is the
transport that is selected, unless it was not selected when it said so: it was asked by a pass that
was bound to it, perhaps before another one was selected, or by a selection that another one had
overtaken. Or the selection of the one that is selected now was dropped since by its caller, before
that transport had answered. -/
theorem token_disclosed {settings : Settings} {disk : Disk} {device : Device} {s : System}
    (h : System.start settings disk device.fresh = .ok s)
    (hzero : s.engine.datasets.current = 0) {incidents : List Incident}
    (hlanded : ∀ lease, Flight.select lease ∉ ((opened s).live incidents).flights) :
    let e := ((opened s).live incidents).system.engine
    e.datasets.current = 0 ∨
      ∃ before i after name, incidents = before ++ i :: after ∧
        let v := (opened s).live before
        v.news i = .discloses name e.datasets.current ∧
          (v.system.device.station name).restoreSet = .ok e.datasets.current ∧
          (∀ news ∈ (v.meet i).tidings after, news.isOfCurrent = false) ∧
          (e.transports.selected = some name ∨
            v.system.engine.transports.selected ≠ some name ∨
            ∃ other, e.transports.selected = some other ∧
              (v.meet i).DroppedAlong other after) := by
  intro e
  by_cases hcurrent : e.datasets.current = 0
  · exact .inl hcurrent
  · rcases live_origin (opened_orderly h) hzero incidents with
      hnone | ⟨before, i, after, name, hsplit, hdiscloses, hquiet, hlag⟩
    · exact absurd hnone hcurrent
    · refine .inr ⟨before, i, after, name, hsplit, hdiscloses,
        restoreSet_of_discloses hdiscloses hcurrent, hquiet, ?_⟩
      rcases hlag with hselected | hother | ⟨lease, hselected, hflight | hdropped⟩
      · exact .inl hselected
      · exact .inr (.inl hother)
      · exact absurd hflight (hlanded lease)
      · exact .inr (.inr ⟨lease.transport, hselected, hdropped⟩)

/-- The transport that was asked when it was selected is still the one that is selected. -/
theorem token_disclosed_selected :
    ∃ s, System.start {} {} deviceOfOne.fresh = .ok s ∧
      let e := ((opened s).live (backupOfOne.map .event)).system.engine
      e.datasets.current = 77 ∧ e.transports.selected = some "local" ∧
        ∃ before i after name, backupOfOne.map Incident.event = before ++ i :: after ∧
          ((opened s).live before).news i = .discloses name 77 := by
  obtain ⟨s, hstart, hzero, hflights, hcurrent, hselected⟩ :=
    @start_decide {} {} deviceOfOne.fresh (fun s =>
      let w := (opened s).live (backupOfOne.map .event)
      s.engine.datasets.current = 0 ∧ w.flights.length = 0 ∧
        w.system.engine.datasets.current = 77 ∧
        w.system.engine.transports.selected = some "local") inferInstance (by decide +kernel)
  have hnone : ((opened s).live (backupOfOne.map .event)).flights = [] :=
    List.length_eq_zero_iff.1 hflights
  have hlanded : ∀ lease, Flight.select lease ∉
      ((opened s).live (backupOfOne.map .event)).flights := by
    rw [hnone]
    exact fun _ => List.not_mem_nil
  rcases token_disclosed hstart hzero hlanded with
    h | ⟨before, i, after, name, hsplit, hdiscloses, -⟩
  · rw [hcurrent] at h
    exact absurd h (by decide)
  · rw [hcurrent] at hdiscloses
    exact ⟨s, hstart, hcurrent, hselected, before, i, after, name, hsplit, hdiscloses⟩

/-- A device with a second transport, which is to write the dataset of a token. -/
def deviceOfTwo (token : UInt64) : Device :=
  { deviceOfOne with stations := [("cloud", { restoreSet := .ok token })] }

/-- Two transports are registered and the first is selected, and a backup of one package is
requested and begins. -/
def backupOfTwo : List Event :=
  [.command, .call (.registerTransport ⟨"local", "vault/Local", "local"⟩),
    .call (.registerTransport ⟨"cloud", "vault/Cloud", "cloud"⟩), .select "local", .land 0,
    .call (.setEnabled true), .call (.setProvisioned true),
    .call (.requestBackup .system ["app"] (some "observer") false), .command]

/-- The second transport is selected while the pass commits. Then the commit is answered, and the
question for the dataset that was written. -/
def switchWithin : List Event :=
  backupOfTwo ++ List.replicate 9 (.task 0) ++ [.select "cloud", .land 0, .task 0, .task 0]

/-- The second transport is selected after the pass. -/
def switchAfter : List Event :=
  backupOfTwo ++ List.replicate 11 (.task 0) ++ [.select "cloud", .land 0]

/-- **The token can come from a transport that is not selected.** The pass was bound to the first
transport, and when it commits it asks that one. The second transport is selected by then and writes
no dataset at all, but the token of the first one is kept. -/
theorem token_of_other :
    ∃ s, System.start {} {} (deviceOfTwo 0).fresh = .ok s ∧
      let incidents := switchWithin.map Incident.event
      let w := (opened s).live incidents
      s.engine.datasets.current = 0 ∧ w.flights.length = 0 ∧
        w.system.engine.datasets.current = 77 ∧
        w.system.engine.transports.selected = some "cloud" ∧
        News.discloses "cloud" 77 ∉ (opened s).tidings incidents :=
  start_decide (by decide +kernel)

/-- **Where the offers come from.** The packages that are known to be backed up are those that some
transport accepted since the last wipe. So a package for which the dataset being written is offered
was accepted, and no transport was wiped since. The transport that accepted it is the one that is
selected, unless it was not selected at that time, or another one has been selected since. -/
theorem offer_accepted {settings : Settings} {disk : Disk} {device : Device} {s : System}
    (h : System.start settings disk device.fresh = .ok s)
    (hempty : s.engine.processed.packages = .empty) (incidents : List Incident) :
    let v := ((opened s).live incidents).system
    (∀ package, v.engine.processed.has package = true ↔
      package ≠ metadataPackage ∧ Stock.Accepted ((opened s).tidings incidents) package) ∧
    ∀ package, v.engine.datasets.current ≠ 0 → v.engine.processed.has package = true →
      v.restoreToken package = v.engine.datasets.current ∧
      ∃ before i after name, incidents = before ++ i :: after ∧
        let u := (opened s).live before
        u.news i = .accepts name package ∧ .forgets ∉ (u.meet i).tidings after ∧
          (v.engine.transports.selected = some name ∨
            u.system.engine.transports.selected ≠ some name ∨
            ∃ other, other ≠ name ∧ v.engine.transports.selected = some other ∧
              ∃ news ∈ (u.meet i).tidings after, news.selected? = some other) := by
  have hw := opened_orderly h
  intro v
  refine ⟨fun package => ?_, fun package hcurrent hknown => ⟨?_, ?_⟩⟩
  · have hmem : v.engine.processed.has package = true ↔ package ∈ v.stock.packages :=
      NameSet.contains_eq
    rw [hmem, live_stock hw, Stock.mem_packages_iff hempty]
  · rw [System.restoreToken, if_pos ⟨hcurrent, hknown⟩]
  · exact live_accepted hw hempty (NameSet.contains_eq.1 hknown)

/-- The dataset of the only transport is offered for the package that was backed up to it. -/
theorem offer_accepted_one :
    ∃ s, System.start {} {} deviceOfOne.fresh = .ok s ∧
      let w := (opened s).live (backupOfOne.map .event)
      w.system.restoreToken "app" = 77 ∧
        Stock.Accepted ((opened s).tidings (backupOfOne.map .event)) "app" := by
  obtain ⟨s, hstart, hempty, hcurrent, hknown⟩ :=
    @start_decide {} {} deviceOfOne.fresh (fun s =>
      let e := ((opened s).live (backupOfOne.map .event)).system.engine
      s.engine.processed.packages = .empty ∧ e.datasets.current = 77 ∧
        e.processed.has "app" = true) inferInstance (by decide +kernel)
  obtain ⟨hexact, hoffered⟩ := offer_accepted hstart hempty (backupOfOne.map .event)
  obtain ⟨htoken, -⟩ := hoffered "app" (by rw [hcurrent]; decide) hknown
  exact ⟨s, hstart, htoken.trans hcurrent, ((hexact "app").1 hknown).2⟩

/-- **The dataset of a transport that never saw the package can be offered.** The package was backed
up to the first transport. After the second one was selected, its dataset is offered. -/
theorem offer_of_other :
    ∃ s, System.start {} {} (deviceOfTwo 5).fresh = .ok s ∧
      let incidents := switchAfter.map Incident.event
      let w := (opened s).live incidents
      w.system.engine.transports.selected = some "cloud" ∧ w.system.engine.datasets.current = 5 ∧
        w.system.engine.processed.has "app" = true ∧ w.system.restoreToken "app" = 5 ∧
        News.accepts "cloud" "app" ∉ (opened s).tidings incidents :=
  start_decide (by decide +kernel)

end World

end Holdfast
