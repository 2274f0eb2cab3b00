import Holdfast.Proofs.Engine.Orders
import Holdfast.Proofs.Engine.Origins
import Holdfast.Proofs.Pending.Staging

/-!
# Confinement of unprivileged callers

A caller without privilege may announce changes of its own packages, restore one of its own packages
from the selected transport, and clear the data of its own packages. Whether it may is decided when
it calls, and what it asked for is done later by the loop, with other callers in between.

- `Session.Covers`: what a restore through a session is limited to;
- `World.posts_covers`: what is queued through a handle keeps to it;
- `World.issued`, `World.Genuine`: the sessions that a run hands out, and runs that use no others;
- `World.Attributed`: **every restore of a session comes from the handle of that session**, step by
  step and along a run;
- `World.unprivileged_confined`: what an unprivileged caller can bring about in a run.
-/

namespace Holdfast

/-! ## Restores through a session -/

/-- A restore belongs to a session and keeps to its limits. -/
structure Session.Covers (session : Session) (order : RestoreOrder) : Prop where
  number : order.session = some session.number
  transport : order.lease.transport = session.transport
  /-- A session for one package restores just that package, and nothing becomes ancestral. -/
  scope : ∀ package, session.package = some package →
    order.packages = [package] ∧ order.recordAncestral = false

/-- The session through which an incident asks for a restore. -/
def Incident.session? : Incident → Option Session
  | .event (.call (.restorePackage session _)) | .event (.call (.restoreAll session _ _)) =>
    some session
  | _ => none

namespace Call.Submits

variable {s : System} {c : Call} {order : RestoreOrder}

/-- A restore that is handed in through a session keeps to its limits. -/
theorem covers (h : c.Submits s order) {session : Session}
    (hsession : (Incident.event (.call c)).session? = some session) : session.Covers order := by
  cases h with
  | @one handle package lease htransport hscope =>
    cases hsession
    refine ⟨rfl, htransport, fun limit hlimit => ?_⟩
    rw [hscope limit hlimit]
    exact ⟨rfl, rfl⟩
  | @all handle token packages lease htransport hscope =>
    cases hsession
    refine ⟨rfl, htransport, fun limit hlimit => ?_⟩
    rw [hscope] at hlimit
    cases hlimit
  | install _ _ _ => cases hsession

/-- A restore of a session is handed in through a session. -/
theorem exists_session (h : c.Submits s order) {number : Nat}
    (hnumber : order.session = some number) :
    ∃ session, (Incident.event (.call c)).session? = some session := by
  cases h with
  | @one handle => exact ⟨handle, rfl⟩
  | @all handle => exact ⟨handle, rfl⟩
  | install _ _ _ => cases hnumber

end Call.Submits

namespace World

variable {w : World} {i : Incident}

/-- A call that queues a restore is one of those that hand in restores. -/
theorem posts_startRestore (hs : w.system.Numbered) {c : Call} {order : RestoreOrder}
    (hmem : .startRestore order ∈ w.posts (.event (.call c))) : c.Submits w.system order := by
  obtain ⟨d, hmatter, hshows⟩ := meet_matter hs (.event (.call c))
  rcases hshows.inbox with ⟨posted, hinbox⟩ | hempty
  · have hposts := posts_eq hinbox
    -- what is new in the inbox is what is new in the mail
    have hmail : d.mail = w.system.desk.mail ++ posted.filter (!·.isQuiet) := by
      calc d.mail = (w.meet (.event (.call c))).system.desk.mail := by rw [hshows.eq]
        _ = w.system.desk.mail ++ posted.filter (!·.isQuiet) := by
          show (w.meet (.event (.call c))).system.engine.inbox.filter _ = _
          rw [← hinbox, List.filter_append]
          rfl
    have hnew : .startRestore order ∈ posted.filter (!·.isQuiet) :=
      List.mem_filter.2 ⟨hposts ▸ hmem, rfl⟩
    have hnone : d.mail ≠ w.system.desk.mail := by
      intro hsame
      rw [hmail] at hsame
      rw [List.append_cancel_left (hsame.trans (List.append_nil _).symm)] at hnew
      cases hnew
    cases hmatter with
    | calm _ | skip _ _ => exact absurd rfl hnone
    | opens _ _ _ => exact absurd (Desk.opens_timed _).mail hnone
    | close _ => exact absurd (Desk.close_timed _ _).mail hnone
    | @submit _ other hsubmits =>
      unfold Desk.post at hmail hnone
      split at hmail
      · rw [List.append_cancel_left hmail.symm] at hnew
        cases List.mem_singleton.1 (List.mem_of_mem_filter hnew)
        exact hsubmits
      · rename_i hstopped
        rw [if_neg hstopped] at hnone
        exact absurd rfl hnone
  · rw [posts, hempty, List.drop_nil] at hmem
    cases hmem

/-- What is queued through a handle is covered by it. -/
theorem posts_covers (hs : w.system.Numbered) {session : Session} {order : RestoreOrder}
    (hhandle : i.session? = some session) (hmem : .startRestore order ∈ w.posts i) :
    session.Covers order := by
  cases i with
  | shutdown => cases hhandle
  | event event =>
    cases event with
    | call c => exact (posts_startRestore hs hmem).covers hhandle
    | _ => cases hhandle

/-! ## Sessions and their handles -/

/-- The session that an incident hands out. -/
def handsOut (w : World) : Incident → List Session
  | .event (.call (.beginSession caller package transport)) =>
    match (w.system.beginSession caller package transport).1 with
    | .ok (some session) => [session]
    | _ => []
  | _ => []

/-- The sessions that a run hands out. -/
def issued (w : World) : List Incident → List Session
  | [] => []
  | i :: incidents => w.handsOut i ++ (w.meet i).issued incidents

/-- Restores are asked for only through sessions that were handed out before. -/
def Genuine (w : World) (handles : List Session) : List Incident → Prop
  | [] => True
  | i :: incidents =>
    (∀ session ∈ i.session?, session ∈ handles) ∧
      (w.meet i).Genuine (handles ++ w.handsOut i) incidents

instance decidableGenuine (w : World) (handles : List Session) :
    (incidents : List Incident) → Decidable (w.Genuine handles incidents)
  | [] => inferInstanceAs (Decidable True)
  | i :: incidents =>
    have := (w.meet i).decidableGenuine (handles ++ w.handsOut i) incidents
    inferInstanceAs (Decidable (_ ∧ _))

theorem issued_append (w : World) (incidents more : List Incident) :
    w.issued (incidents ++ more) = w.issued incidents ++ (w.live incidents).issued more := by
  induction incidents generalizing w with
  | nil => rfl
  | cons i incidents ih =>
    show w.handsOut i ++ (w.meet i).issued (incidents ++ more) = _
    rw [ih, ← List.append_assoc]
    rfl

/-- A session that is handed out has the next number, which is then used up. -/
theorem handsOut_cases (w : World) (i : Incident) :
    w.handsOut i = [] ∨ ∃ session, w.handsOut i = [session] ∧
      session.number = w.system.engine.nextNumber ∧
      w.system.engine.nextNumber < (w.meet i).system.engine.nextNumber := by
  unfold handsOut
  split
  · rename_i caller package transport
    split
    · rename_i session hanswer
      rcases w.system.beginSession_cases caller package transport with
        ⟨hnone, -⟩ | ⟨opened, hopened, hnumber, -, heq⟩
      · exact absurd hanswer (hnone _)
      · cases hanswer.symm.trans hopened
        refine .inr ⟨session, rfl, hnumber, ?_⟩
        -- the session takes one number, and its timer may take more
        obtain ⟨_, _, _, hnext, harm⟩ := System.armSession_timed
          (w.system.freshNumber.2.onEngine fun e =>
            { e with session := some ⟨w.system.engine.nextNumber, none⟩ })
          w.system.engine.nextNumber
        show _ < (w.system.beginSession caller package transport).2.engine.nextNumber
        rw [heq, harm]
        exact hnext
    · exact .inl rfl
  · exact .inl rfl

/-- Handles are told apart by their numbers, and every restore of a session comes from one of
them. -/
structure Attributed (w : World) (handles : List Session) : Prop where
  numbered : w.system.Numbered
  tended : w.system.desk.Tended
  distinct : (handles.map (·.number)).Nodup
  below : ∀ session ∈ handles, session.number < w.system.engine.nextNumber
  covered : ∀ order ∈ w.system.desk.orders, ∀ number, order.session = some number →
    ∃ session ∈ handles, session.Covers order

/-- Numbers tell sessions apart, so a restore that bears the number of a handle comes from it. -/
theorem Attributed.covers {handles : List Session} (h : w.Attributed handles) {session : Session}
    {order : RestoreOrder} (hsession : session ∈ handles) (hmem : order ∈ w.system.desk.orders)
    (hnumber : order.session = some session.number) : session.Covers order := by
  obtain ⟨handle, hhandle, hcovers⟩ := h.covered order hmem session.number hnumber
  have hsame : handle = session := by
    refine List.inj_on_of_nodup_map h.distinct hhandle hsession ?_
    exact Option.some.inj (hcovers.number.symm.trans hnumber)
  exact hsame ▸ hcovers

/-- One incident. -/
theorem meet_attributed {handles : List Session} (h : w.Attributed handles)
    (hgenuine : ∀ session ∈ i.session?, session ∈ handles) :
    (w.meet i).Attributed (handles ++ w.handsOut i) := by
  obtain ⟨d, hmatter, hshows⟩ := meet_matter h.numbered i
  have hnext : w.system.engine.nextNumber ≤ (w.meet i).system.engine.nextNumber :=
    Nat.le_trans hmatter.next_le hshows.next
  refine ⟨hshows.numbered, hshows.tended (hmatter.tended h.tended), ?_, ?_, ?_⟩
  -- a new handle has a number that no earlier one has
  · rcases w.handsOut_cases i with hnone | ⟨session, hone, hnumber, -⟩
    · rw [hnone, List.append_nil]
      exact h.distinct
    · rw [hone]
      exact nodup_concat_next h.distinct h.below hnumber
  · intro session hmem
    rcases List.mem_append.1 hmem with hold | hnew
    · exact Nat.lt_of_lt_of_le (h.below session hold) hnext
    · rcases w.handsOut_cases i with hnone | ⟨other, hone, hnumber, hused⟩
      · rw [hnone] at hnew
        cases hnew
      · rw [hone] at hnew
        rw [List.mem_singleton.1 hnew, hnumber]
        exact hused
  -- a restore that is new was handed in through a handle that was given out before
  · intro order hmem number hnumber
    rcases hmatter.orders h.numbered h.tended (hshows.orders.subset hmem) with
      hold | ⟨c, rfl, hsubmits⟩
    · obtain ⟨session, hsession, hcovers⟩ := h.covered order hold number hnumber
      exact ⟨session, List.mem_append_left _ hsession, hcovers⟩
    · obtain ⟨session, hsession⟩ := hsubmits.exists_session hnumber
      exact ⟨session, List.mem_append_left _ (hgenuine session hsession),
        hsubmits.covers hsession⟩

/-- **Every restore of a session comes from the handle of that session**, after every run in which
handles are not made up. -/
theorem live_attributed {handles : List Session} (h : w.Attributed handles)
    {incidents : List Incident} (hgenuine : w.Genuine handles incidents) :
    (w.live incidents).Attributed (handles ++ w.issued incidents) := by
  induction incidents generalizing w handles with
  | nil =>
    show w.Attributed (handles ++ [])
    rw [List.append_nil]
    exact h
  | cons i incidents ih =>
    have hrun := ih (meet_attributed h hgenuine.1) hgenuine.2
    rw [List.append_assoc] at hrun
    exact hrun

theorem opened_attributed {settings : Settings} {disk : Disk} {device : Device} {s : System}
    (hstart : System.start settings disk device.fresh = .ok s) : (opened s).Attributed [] := by
  obtain ⟨hnumbered, hcleared⟩ := System.start_desk hstart
  refine ⟨hnumbered, opened_tended hstart, List.nodup_nil, nofun, ?_⟩
  show ∀ order ∈ s.desk.orders, _
  rw [hcleared]
  exact nofun

end World

/-! ## What is decided at the call -/

namespace System

variable {s : System} {caller : Caller}

/-- An announced change is left alone, or handed to the loop with the participants of the caller. -/
theorem dataChanged_cases (hcaller : caller.privileged = false) (package : String) :
    (s.dataChanged caller package).2 = s ∨
      ∃ targets, s.engine.participants.lookup caller.uid = some targets ∧
        (s.dataChanged caller package).2 = s.post (.dataChanged package targets) := by
  unfold dataChanged changeTargets
  simp only [hcaller, Bool.not_false, if_true]
  cases s.engine.participants.lookup caller.uid with
  | none => exact .inl rfl
  | some targets =>
    simp only [Option.getD_some]
    split
    · exact .inl rfl
    · exact .inr ⟨targets, rfl, s.send_snd _⟩

/-- What the loop stages when it hears of a change. -/
theorem mem_handle_dataChanged {package name : String} {targets : NameSet} :
    name ∈ (s.handle (.dataChanged package targets)).engine.pending.packages ↔
      (name = package ∧ package ∈ targets) ∨ name ∈ s.engine.pending.packages :=
  Pending.mem_record

/-- The session of an unprivileged caller is for one of its own packages, on the selected
transport. -/
theorem beginSession_unprivileged (hcaller : caller.privileged = false)
    {package transport : Option String} {session : Session}
    (h : (s.beginSession caller package transport).1 = .ok (some session)) :
    ∃ name p, session.package = some name ∧ s.device.package? name = some p ∧
      p.uid = caller.uid ∧ s.engine.transports.selected = some session.transport := by
  revert h
  refine beginSession_elim ?refuses ?opens
  case refuses => exact fun _ hnone h => absurd h (hnone session)
  case opens =>
    rintro p transport hasked hallowed - - - ⟨⟩
    -- without privilege a session is opened only where none is needed
    rcases hasked with ⟨-, rfl⟩ | ⟨name, p, rfl, hp, rfl⟩
    · simp [needsPrivilege, hcaller] at hallowed
    · have hname : p.name = name := by simpa using List.find?_some hp
      have hown : p.uid = caller.uid ∧ s.engine.transports.selected = some transport := by
        simpa [needsPrivilege, hcaller] using hallowed
      exact ⟨name, p, congrArg some hname, hp, hown⟩

/-- The data of a package is cleared for its own identity only. -/
theorem clearData_unprivileged (hcaller : caller.privileged = false) {transport package : String}
    (h : (s.clearData caller transport package).1 = .ok ()) :
    ∃ p, s.device.package? package = some p ∧ p.uid = caller.uid := by
  unfold clearData at h
  split at h
  · cases h
  · rename_i p hp
    split at h
    · cases h
    · rename_i hallowed
      simp only [hcaller, Bool.not_false, Bool.true_and, bne_iff_ne, ne_eq, not_not] at hallowed
      exact ⟨p, hp, hallowed.symm⟩

end System

namespace World

variable {w : World} {caller : Caller}

/-- What an unprivileged caller hands to the loop when it announces a change. -/
theorem posts_dataChanged (hcaller : caller.privileged = false) {package : String}
    {command : Command} (hmem : command ∈ w.posts (.event (.call (.dataChanged caller package)))) :
    ∃ targets, w.system.engine.participants.lookup caller.uid = some targets ∧
      command = .dataChanged package targets := by
  have hmem : command ∈ (w.system.dataChanged caller package).2.engine.inbox.drop
      w.system.engine.inbox.length := hmem
  rcases System.dataChanged_cases hcaller package with heq | ⟨targets, hlookup, heq⟩
  · rw [heq, List.drop_length] at hmem
    cases hmem
  · refine ⟨targets, hlookup, ?_⟩
    rw [heq, System.post] at hmem
    split at hmem
    · simpa [System.onEngine] using hmem
    · simp at hmem

/-- **What a queued announcement stages.** When the loop takes what an unprivileged caller
announced, it stages at most the package of that call, and only if the package was among the
participants of the caller at the call. -/
theorem command_dataChanged (hs : w.system.Numbered) {incidents before : List Incident}
    (hcaller : caller.privileged = false) {package name : String}
    (horigin : (w.origins incidents).head? =
      some (some ⟨before, .event (.call (.dataChanged caller package))⟩))
    (hmem : name ∈ ((w.live incidents).meet (.event .command)).system.engine.pending.packages)
    (hnew : name ∉ (w.live incidents).system.engine.pending.packages) :
    name = package ∧ (∃ after,
        incidents = before ++ .event (.call (.dataChanged caller package)) :: after) ∧
      ∃ targets, (w.live before).system.engine.participants.lookup caller.uid = some targets ∧
        name ∈ targets := by
  -- the oldest origin is that of the oldest command
  have hstem := origins_stem hs incidents
  generalize w.origins incidents = marks at horigin hstem
  cases hinbox : (w.live incidents).system.engine.inbox with
  | nil =>
    rw [hinbox] at hstem
    cases hstem
    cases horigin
  | cons command rest =>
    rw [hinbox] at hstem
    cases hstem with
    | cons hfirst _ =>
      cases horigin
      obtain ⟨hsplit, hposts⟩ := hfirst
      obtain ⟨targets, hlookup, rfl⟩ := posts_dataChanged hcaller hposts
      have hsystem : ((w.live incidents).meet (.event .command)).system =
          ((w.live incidents).system.onEngine fun e => { e with inbox := rest }).handle
            (.dataChanged package targets) := by
        simp only [meet, happen, hinbox]
        rfl
      rw [hsystem] at hmem
      rcases System.mem_handle_dataChanged.1 hmem with ⟨rfl, htarget⟩ | hold
      · exact ⟨rfl, hsplit, targets, hlookup, htarget⟩
      · exact absurd hold hnew

/-- **Confinement of unprivileged callers.** At every point of every run, a shutdown included, and
for every caller without privilege that is not the system:

- when it announces a change, nothing but the inbox changes, and what is queued has this call as its
  origin; and when the loop takes a command of such an origin, it stages at most the package that
  was named, which was among the participants of the caller at the call;
- a session that it opens is for one package, of its own identity at that moment, and on the
  transport selected at that moment; and every restore that is queued through its handle is for
  just that package, on that transport, and its dataset does not become ancestral; so are all
  restores of the session, whether queued, waiting or running, as long as callers use no other
  handles than those they were given;
- it can clear the data of packages of its own identity only;
- its requests for backups, its restores at install and its reports about agents are refused and
  change nothing. -/
theorem unprivileged_confined {settings : Settings} {disk : Disk} {device : Device} {s : System}
    (hstart : System.start settings disk device.fresh = .ok s) (incidents : List Incident)
    (hcaller : caller.privileged = false) (huid : caller.uid ≠ systemUid) :
    let w₀ := opened s
    let w := w₀.live incidents
    ((∀ package, let i : Incident := .event (.call (.dataChanged caller package))
        (∃ inbox, (w.meet i).system = w.system.onEngine fun e => { e with inbox }) ∧
          w₀.origins (incidents ++ [i]) =
            w₀.origins incidents ++ List.replicate (w.posts i).length (some ⟨incidents, i⟩)) ∧
      ∀ before package, (w₀.origins incidents).head? =
          some (some ⟨before, .event (.call (.dataChanged caller package))⟩) →
        ∀ name ∈ (w.meet (.event .command)).system.engine.pending.packages,
          name ∉ w.system.engine.pending.packages →
          name = package ∧
            (∃ after, incidents =
              before ++ .event (.call (.dataChanged caller package)) :: after) ∧
            ∃ targets,
              (w₀.live before).system.engine.participants.lookup caller.uid = some targets ∧
                name ∈ targets) ∧
      (∀ before after package transport session,
        incidents = before ++ .event (.call (.beginSession caller package transport)) :: after →
        ((w₀.live before).system.beginSession caller package transport).1 = .ok (some session) →
        ∃ name p, session.package = some name ∧
          (w₀.live before).system.device.package? name = some p ∧ p.uid = caller.uid ∧
          (w₀.live before).system.engine.transports.selected = some session.transport ∧
          ∀ order, (∃ i, i.session? = some session ∧ .startRestore order ∈ w.posts i) ∨
              (w₀.Genuine [] incidents ∧ order ∈ w.orders ∧
                order.session = some session.number) →
            order.packages = [name] ∧ order.lease.transport = session.transport ∧
              order.recordAncestral = false) ∧
      (∀ transport package, (w.system.clearData caller transport package).1 = .ok () →
        ∃ p, w.system.device.package? package = some p ∧ p.uid = caller.uid) ∧
      (∀ packages observer nonIncremental,
        w.system.requestBackup caller packages observer nonIncremental =
          (if packages.isEmpty then .noPackages else .notAllowed, w.system)) ∧
      (∀ package token, w.system.restoreAtInstall caller package token =
        (.error (.denied .restoreAtInstall), w.system)) ∧
      (∀ package, w.system.agentConnected caller package =
        (.error (.denied .reportConnection), w.system)) ∧
      ∀ package, w.system.agentDisconnected caller package =
        (.error (.denied .reportDisconnection), w.system) := by
  intro w₀ w
  have hnumbered : w₀.system.Numbered := (System.start_desk hstart).1
  have hsystem : caller.isSystem = false := by simpa [Caller.isSystem] using huid
  refine ⟨⟨?_, ?_⟩, ?_, ?_, ?_, ?_, ?_, ?_⟩
  · intro package i
    constructor
    · show ∃ inbox, (w.system.dataChanged caller package).2 = _
      rcases System.dataChanged_cases hcaller package with heq | ⟨targets, -, heq⟩
      · exact ⟨_, heq⟩
      · rw [heq, System.post]
        split
        · exact ⟨_, rfl⟩
        · exact ⟨_, rfl⟩
    · obtain ⟨posted, hinbox⟩ := (w.system.dataChanged_within caller package).inbox
      rw [origins_concat]
      exact mark_eq (i := i) (origins_stem hnumbered incidents).length_eq.symm hinbox
  · intro before package horigin name hmem hnew
    exact command_dataChanged hnumbered hcaller horigin hmem hnew
  · intro before after package transport session hsplit hopen
    obtain ⟨name, p, hname, hp, huid, hselected⟩ := System.beginSession_unprivileged hcaller hopen
    refine ⟨name, p, hname, hp, huid, hselected, fun order hsubmitted => ?_⟩
    have hcovers : session.Covers order := by
      rcases hsubmitted with ⟨i, hhandle, hposts⟩ | ⟨hgenuine, hmem, hsession⟩
      · exact posts_covers (live_numbered hnumbered incidents) hhandle hposts
      · have hissued : session ∈ w₀.issued incidents := by
          have hfirst : session ∈ (w₀.live before).handsOut
              (.event (.call (.beginSession caller package transport))) := by
            simp [handsOut, hopen]
          rw [hsplit, issued_append]
          exact List.mem_append_right _ (List.mem_append_left _ hfirst)
        have hattributed := live_attributed (opened_attributed hstart) hgenuine
        exact hattributed.covers hissued (w.orders_eq ▸ hmem) hsession
    obtain ⟨hpackages, hancestral⟩ := hcovers.scope name hname
    exact ⟨hpackages, hcovers.transport, hancestral⟩
  · intro transport package hcleared
    exact System.clearData_unprivileged hcaller hcleared
  · intro packages observer nonIncremental
    unfold System.requestBackup
    split
    · rfl
    · rw [if_pos (by simp [hcaller])]
  · intro package token
    rw [System.restoreAtInstall, if_pos (by simp [hcaller])]
  · intro package
    rw [System.agentConnected, if_neg (by simp [hsystem])]
  · intro package
    rw [System.agentDisconnected, if_neg (by simp [hsystem])]

/-- After the backup of one package, its application announces a change of it. -/
def announcementOfOne : List Incident :=
  backupOfOne.map .event ++ [.event (.call (.dataChanged (.app 10001) "app"))]

/-- Then the application opens a session for its package, and restores it. -/
def restoreOfOne : List Incident :=
  announcementOfOne ++ [.event .command] ++
    .event (.call (.beginSession (.app 10001) (some "app") none)) ::
      [.event (.call (.restorePackage ⟨1, some "app", "local"⟩ "app"))]

theorem unprivileged_confined_restoreOfOne :
    ∃ s, System.start {} {} deviceOfOne.fresh = .ok s ∧
      (∃ targets, ((opened s).run backupOfOne).system.engine.participants.lookup 10001 =
        some targets ∧ "app" ∈ targets) ∧
      (∃ order ∈ ((opened s).live restoreOfOne).orders, order.packages = ["app"] ∧
        order.lease.transport = "local" ∧ order.recordAncestral = false) ∧
      (s.agentConnected (.app 10001) "app").2 = s := by
  obtain ⟨s, hstart, hcheck⟩ := @start_check {} {} deviceOfOne.fresh (fun s =>
    let idle := (opened s).live (backupOfOne.map .event)
    let told := (opened s).live announcementOfOne
    let heard := told.meet (.event .command)
    let restoring := (opened s).live restoreOfOne
    (idle.system.engine.inbox.length == 0 && told.system.engine.inbox.length == 1) &&
      (decide ("app" ∈ heard.system.engine.pending.packages) &&
        !decide ("app" ∈ told.system.engine.pending.packages)) &&
      (match (heard.system.beginSession (.app 10001) (some "app") none).1 with
        | .ok answer => answer == some ⟨1, some "app", "local"⟩
        | .error _ => false) &&
      (decide ((opened s).Genuine [] restoreOfOne) &&
        restoring.orders.any (·.session == some 1)))
    (by decide +kernel)
  simp only [Bool.and_eq_true, beq_iff_eq, decide_eq_true_eq, Bool.not_eq_true',
    decide_eq_false_iff_not, List.length_eq_zero_iff, List.any_eq_true] at hcheck
  obtain ⟨⟨⟨⟨hempty, hone⟩, hstaged, hnew⟩, hanswer⟩, hgenuine, order, horder, hsession⟩ := hcheck
  -- the announcement is the only command that is queued
  have horigin : ((opened s).origins announcementOfOne).head? = some (some
      ⟨backupOfOne.map .event, .event (.call (.dataChanged (.app 10001) "app"))⟩) := by
    have hstem := origins_stem (w := opened s) (System.start_desk hstart).1 (backupOfOne.map .event)
    rw [hempty] at hstem
    rw [announcementOfOne, origins_concat, List.forall₂_nil_left_iff.1 hstem, mark, ← live_concat]
    rw [announcementOfOne] at hone
    rw [hone]
    rfl
  have hopen : (((opened s).live (announcementOfOne ++ [.event .command])).system.beginSession
      (.app 10001) (some "app") none).1 = .ok (some ⟨1, some "app", "local"⟩) := by
    rw [live_concat]
    split at hanswer
    · rename_i answer heq
      rw [heq, beq_iff_eq.1 hanswer]
    · cases hanswer
  obtain ⟨⟨-, hchanges⟩, -⟩ :=
    @unprivileged_confined (.app 10001) {} {} deviceOfOne s hstart announcementOfOne rfl (by decide)
  obtain ⟨-, hsessions, -⟩ :=
    @unprivileged_confined (.app 10001) {} {} deviceOfOne s hstart restoreOfOne rfl (by decide)
  obtain ⟨-, -, -, -, -, hconnected, -⟩ :=
    @unprivileged_confined (.app 10001) {} {} deviceOfOne s hstart [] rfl (by decide)
  obtain ⟨-, -, hparticipant⟩ := hchanges _ _ horigin "app" hstaged hnew
  rw [live_events] at hparticipant
  obtain ⟨name, p, hname, -, -, -, hrestores⟩ := hsessions _ _ _ _ _ rfl hopen
  cases hname
  have hrestore := hrestores order (.inr ⟨hgenuine, horder, hsession⟩)
  exact ⟨s, hstart, hparticipant, ⟨order, horder, hrestore⟩, congrArg Prod.snd (hconnected "app")⟩

end World

end Holdfast
