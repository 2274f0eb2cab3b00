import Holdfast.Proofs.Engine.Move

/-!
# What calls into the engine do to the books

A call acts at once or posts a command. Those that back up or restore take a lease, which goes
into the command; the others leave the books as they are, apart from tokens that are forgotten
and from what observers are told.

- `System.requestBackup_move`, `System.submit_delivery`: a lease goes into a command, and is left to
  nobody when the loop has stopped;
- `System.beginFull_move`: a scheduled full backup begins;
- `System.beginSelect_move`, `System.beginSets_move`: a call takes a lease that it keeps while a
  transport answers, and `System.endSelect_move`, `System.endSets_move` give it back.
-/

namespace Holdfast.System

open Ledger

variable {s : System} {hand : List Lease}

/-! ## Changes and backups -/

/-- Packages that are neither key-value nor full are reported to the observer. -/
theorem classify_later (observer : Option String) (packages : List String) (s : System) :
    ∃ said, Device.AreResults observer said ∧
      s.Later said (s.classify observer packages).2.2 := by
  refine classify_elim ?start ?tells
  case start => exact ⟨[], fun _ hmem => absurd hmem List.not_mem_nil, .refl⟩
  case tells =>
    rintro s' package status ⟨said, hresults, hlater⟩
    exact ⟨_, hresults.append (areResults_result observer package status),
      hlater.trans ⟨0, s'.tellResult_ledger _ _ _⟩⟩

/-- A call takes a lease and leaves it to nobody, because the loop has stopped. -/
structure Leaves (s : System) (hand : List Lease) (lease : Lease) (s' : System) : Prop where
  stopped : s.ledger.looping = false
  number : lease.number = s.ledger.nextLease
  leases : s'.engine.transports.leases = lease :: s.engine.transports.leases
  move : Move s.ledger hand s'.ledger (lease :: hand) {}

/-- A request is refused at once, or its order is left in the inbox with a lease. When the loop has
stopped, the lease is left to nobody. -/
theorem requestBackup_move (caller : Caller) (packages : List String) (observer : Option String)
    (nonIncremental : Bool) :
    ((s.requestBackup caller packages observer nonIncremental).1 ≠ .success ∧
      ((s.requestBackup caller packages observer nonIncremental).1 = .transportAborted →
        (s.engine.transports.leaseCurrent "request-backup").1 = none) ∧
      (s.requestBackup caller packages observer nonIncremental).2 = s) ∨
    (∃ order : BackupOrder, order.observer = observer ∧
      (s.requestBackup caller packages observer nonIncremental).1 = .success ∧
      (s.requestBackup caller packages observer nonIncremental).2.engine.inbox.getLast? =
        some (.requestBackup order) ∧
      Move s.ledger hand (s.requestBackup caller packages observer nonIncremental).2.ledger hand
        { accepted := [order] }) ∨
    ∃ lease, (s.requestBackup caller packages observer nonIncremental).1 = .transportAborted ∧
      (s.engine.transports.leaseCurrent "request-backup").1 = some lease ∧
      s.Leaves hand lease (s.requestBackup caller packages observer nonIncremental).2 := by
  refine requestBackup_elim ?refuses ?posts
  case refuses => exact fun status hfailed hnone => .inl ⟨hfailed, hnone, rfl⟩
  case posts =>
    intro name keyValue full s' _ hsome hs'
    obtain ⟨said, hresults, k, hk⟩ :=
      classify_later observer packages (s.lend name "request-backup")
    rw [hs', lend_ledger] at hk
    have hsame : s'.ledger.looping = s.ledger.looping := by
      rw [hk]
      rfl
    cases hloop : s.ledger.looping with
    -- the loop runs and takes the order over
    | true =>
      have hloop' : s'.engine.looping = true := hsame.trans hloop
      refine .inr (.inl ⟨⟨s.engine.transports.nextLeaseOf name "request-backup", keyValue, full,
        observer, nonIncremental⟩, rfl, if_pos hloop', ?_, ?_⟩)
      · simp [post, hloop', onEngine]
      · simp only
        rw [post_counted _ rfl hloop', hk]
        exact ⟨k, observer, said, hresults, @Deed.request _ _
          ⟨_, keyValue, full, observer, nonIncremental⟩ hloop rfl⟩
    -- nobody takes the order, and the lease stays out
    | false =>
      have hloop' : s'.engine.looping = false := hsame.trans hloop
      refine .inr (.inr ⟨_, if_neg (by simp [hloop']), hsome, hloop, rfl, ?_, ?_⟩)
      · rw [post_stopped _ _ hloop']
        exact congrArg Ledger.leases hk
      · rw [post_stopped _ _ hloop', hk]
        exact ⟨k, observer, said, hresults, .lend rfl⟩

theorem cancelBackups_move (hs : s.Distinct) :
    Move s.ledger hand s.cancelBackups.ledger hand {} := by
  have hfold : ∀ (tokens : List OpToken) (s : System), s.Distinct →
      ∃ keys, keys ⊆ s.ledger.keys ∧
        (tokens.foldl cancelOperation s).ledger = s.ledger.withKeys keys := by
    intro tokens
    induction tokens with
    | nil => exact fun s _ => ⟨_, List.Subset.refl _, rfl⟩
    | cons token tokens ih =>
      intro s hs
      obtain ⟨keys, hkeys, hcancel⟩ := cancelOperation_ledger hs token
      have hs' : (s.cancelOperation token).Distinct := by
        rw [Distinct, hcancel]
        exact hs
      obtain ⟨keys', hkeys', hrest⟩ := ih _ hs'
      rw [hcancel] at hkeys' hrest
      exact ⟨keys', List.Subset.trans hkeys' hkeys, hrest⟩
  obtain ⟨keys, hkeys, hledger⟩ := hfold s.engine.ops.pendingTasks s hs
  unfold cancelBackups
  simp only
  rw [note_ledger _ rfl rfl, note_ledger _ rfl rfl, hledger]
  exact .of_keys hkeys

/-! ## Scheduled full backups -/

theorem selectNext_ledger (s : System) : s.selectNext.2.2.ledger = s.ledger :=
  s.selectNext_within.ledger (by decide)

theorem startFull_ledger (s : System) (lease : Lease) (entry : ScheduleEntry) (p : Package) :
    ∃ token keys, keys ⊆ token :: s.ledger.keys ∧
      (s.startFull lease entry p).ledger =
        { s.ledger.withKeys keys with full := some token }.acquire.enter (.full p entry.lastBackup)
          (some lease) (some token) := by
  have hledger := s.freshToken_ledger
  unfold startFull
  simp only [spawn_ledger]
  generalize s.freshToken = fresh at hledger ⊢
  obtain ⟨token, s'⟩ := fresh
  rw [← hledger]
  exact ⟨_, _, s'.engine.ops.tokens_registerTask _ (.task s'.engine.nextNumber), rfl⟩

theorem dispatchFull_move (hidle : s.ledger.full = none) :
    Move s.ledger hand s.dispatchFull.2.2.ledger hand {} := by
  have hnext := s.selectNext_ledger
  refine dispatchFull_elim ?waits ?putsBack ?starts
  case waits => exact .of_eq hnext
  case putsBack => exact fun _ _ _ _ => .of_eq hnext
  case starts =>
    intro entry p name _
    obtain ⟨token, keys, hkeys, hstart⟩ :=
      (s.selectNext.2.2.lend name "full-backup").startFull_ledger
        (s.selectNext.2.2.engine.transports.nextLeaseOf name "full-backup") entry p
    rw [hstart, lend_ledger, hnext]
    exact .of_deed (.full rfl hidle hkeys)

theorem beginFull_move : Move s.ledger hand s.beginFull.2.ledger hand {} := by
  refine beginFull_elim ?start ?dispatches ?writes ?arms
  case start => exact .refl
  case dispatches =>
    intro hidle
    exact dispatchFull_move (by simp [ledger, hidle])
  case writes =>
    intro s' hmove
    rwa [requestScheduleWrite_ledger]
  case arms =>
    intro s' delay hmove
    rwa [note_ledger _ rfl rfl]

theorem endFullNow_move (hs : s.Distinct) : Move s.ledger hand s.endFullNow.2.ledger hand {} := by
  unfold endFullNow
  split
  · rename_i token _ _
    obtain ⟨keys, hkeys, hcancel⟩ := cancelOperation_ledger hs token
    simp only
    rw [hcancel]
    exact .of_keys hkeys
  · exact .refl

/-! ## Transports and switches -/

/-- Selecting a registered transport takes a lease for the question that follows. -/
theorem beginSelect_move (name : String) :
    (∃ lease, (s.beginSelect name).1 = some (some lease) ∧
      Move s.ledger hand (s.beginSelect name).2.ledger (lease :: hand) {}) ∨
    ((∀ lease, (s.beginSelect name).1 ≠ some (some lease)) ∧
      (s.beginSelect name).2.ledger = s.ledger) := by
  refine beginSelect_elim ?refuses ?unknown ?asks
  case refuses => exact .inr ⟨nofun, rfl⟩
  case unknown => exact .inr ⟨nofun, rfl⟩
  case asks =>
    refine .inl ⟨_, rfl, ?_⟩
    rw [note_ledger _ rfl rfl, lend_ledger]
    exact .of_deed (.lend rfl)

/-- The lease goes back when the transport has answered. -/
theorem endSelect_move {lease : Lease} {hand' : List Lease} (hhand : hand.Perm (lease :: hand')) :
    Move s.ledger hand (s.endSelect (some lease)).ledger hand' {} := by
  have hend : (s.endSelect (some lease)).ledger = s.ledger.reclaim (some lease) :=
    s.dispose_ledger (some lease)
  rw [hend]
  exact .of_deed (.giveBack hhand)

/-! ## Packages and agents -/

theorem complete_move (token : OpToken) (result : Int) :
    Move s.ledger hand (s.complete token result).ledger hand {} :=
  .of_keys (s.engine.ops.complete_subset token result)

/-! ## Restores -/

theorem beginSession_later (s : System) (caller : Caller) (package transport : Option String)
    (hdelayed : s.ledger.delayed = []) :
    s.Later [] (s.beginSession caller package transport).2 := by
  refine beginSession_elim ?refuses ?opens
  case refuses => exact fun _ _ => .refl
  case opens =>
    intro _ _ _ _ _ _ _
    have hopened : s.Later [] (s.freshNumber.2.onEngine fun e =>
        { e with session := some ⟨s.engine.nextNumber, none⟩ }) :=
      ⟨1, by simp [freshNumber, ledger, onEngine, Ledger.later]⟩
    exact hopened.trans (armSession_later _ _ (hopened.delayed.trans hdelayed))

/-- Asking for the datasets of a session takes a lease. -/
theorem beginSets_move (session : Session) :
    (∃ lease, (s.beginSets session).1 = .ok lease ∧
      Move s.ledger hand (s.beginSets session).2.ledger (lease :: hand) {}) ∨
    ∃ fault, (s.beginSets session).1 = .error fault ∧ (s.beginSets session).2 = s := by
  refine beginSets_elim ?refuses ?asks
  case refuses => exact fun fault => .inr ⟨fault, rfl, rfl⟩
  case asks =>
    refine .inl ⟨_, rfl, ?_⟩
    rw [note_ledger _ rfl rfl, lend_ledger]
    exact .of_deed (.lend rfl)

/-- The lease goes back when the transport has answered, however it did. -/
theorem endSets_move {session : Session} {lease : Lease} {hand' : List Lease}
    (hhand : hand.Perm (lease :: hand')) (hdelayed : s.ledger.delayed = []) :
    Move s.ledger hand (s.endSets session lease).2.ledger hand' {} := by
  have hdispose := s.dispose_ledger (some lease)
  have hdelayed' : (s.dispose (some lease)).ledger.delayed = [] := by
    rw [hdispose]
    exact hdelayed
  obtain ⟨k, hk⟩ := (s.dispose (some lease)).armSession_later session.number hdelayed'
  rw [endSets_snd, hk, hdispose]
  exact .of_silent (.giveBack hhand)

/-- How a call can end that is to hand a restore to the loop. Either nothing is left over, or the
loop has stopped and the lease is left to nobody. -/
inductive Delivery (s : System) (hand : List Lease) : Except Fault Unit × System → Prop where
  | settled {answer : Except Fault Unit} {s' : System} :
    answer ≠ .error .loopStopped → Move s.ledger hand s'.ledger hand {} →
    Delivery s hand (answer, s')
  | stranded {lease : Lease} {s' : System} :
    s.Leaves hand lease s' → Delivery s hand (.error .loopStopped, s')

/-- A call that is refused at once. -/
theorem Delivery.refused {fault : Fault} (h : fault ≠ .loopStopped) :
    Delivery s hand (.error fault, s) :=
  .settled (fun heq => h (Except.error.inj heq)) .refl

/-- A lease goes into the command that starts a restore. -/
theorem submit_delivery (session : Session) (token : UInt64) (packages : List String)
    (recordAncestral : Bool) :
    Delivery s hand (s.submit session token packages recordAncestral) := by
  refine submit_elim ?refuses ?posts
  case refuses => exact .refused nofun
  case posts =>
    have hloop' : (s.lend session.transport "restore-session").ledger.looping =
        s.engine.looping := rfl
    cases hloop : s.engine.looping with
    | true =>
      refine .settled nofun ?_
      rw [post_counted _ rfl (hloop'.trans hloop)]
      exact .of_deed (@Deed.submit _ _ ⟨_, token, packages, none, recordAncestral,
        some session.number⟩ hloop rfl)
    | false =>
      rw [post_stopped _ _ (hloop'.trans hloop)]
      exact .stranded ⟨hloop, rfl, rfl, .of_deed (.lend rfl)⟩

theorem restorePackage_delivery (session : Session) (package : String) :
    Delivery s hand (s.restorePackage session package) := by
  refine restorePackage_elim ?refuses ?submits
  case refuses => exact fun _ hknown => .refused hknown
  case submits => exact fun _ => submit_delivery _ _ _ _

theorem restoreAll_delivery (session : Session) (token : UInt64) (packages : List String) :
    Delivery s hand (s.restoreAll session token packages) := by
  refine restoreAll_elim ?refuses ?submits
  case refuses => exact fun _ hknown => .refused hknown
  case submits => exact fun _ => submit_delivery _ _ _ _

theorem restoreAtInstall_delivery (caller : Caller) (package : String) (installToken : Int) :
    Delivery s hand (s.restoreAtInstall caller package installToken) := by
  refine restoreAtInstall_elim ?refuses ?skips ?posts ?strands
  case refuses => exact fun _ => .refused nofun
  case skips => exact fun _ => .settled nofun (.of_eq (note_ledger _ rfl rfl))
  case posts =>
    intro name _ hloop
    have hloop' : (s.lend name "restore-at-install").ledger.looping = true := hloop
    refine .settled nofun ?_
    rw [post_counted _ rfl hloop']
    exact .of_deed (@Deed.submit _ _ ⟨_, s.restoreToken package, [package], some installToken,
      false, none⟩ hloop rfl)
  case strands =>
    intro name hloop
    refine .stranded ⟨hloop, rfl, rfl, ?_⟩
    rw [note_ledger _ rfl rfl]
    exact .of_deed (.lend rfl)

end Holdfast.System
