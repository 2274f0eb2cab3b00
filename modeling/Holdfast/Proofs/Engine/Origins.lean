import Mathlib.Data.List.Forall2
import Holdfast.Proofs.Engine.Matters

/-!
# Where queued commands come from

A call can take effect long after it was made, when the loop takes the command that it posted. What
is queued is therefore followed back to the incident that posted it, and to the world in which that
incident happened.

- `World.posts`: the commands that an incident adds to the inbox;
- `World.origins`: the origin of each queued command after a run;
- `World.origins_stem`: **the origin of a command is an incident of the run, and it posted that
  command**.
-/

namespace Holdfast

/-- An incident of a run, with everything that had happened before. -/
structure Origin where
  before : List Incident
  incident : Incident

namespace World

variable {w w₀ : World} {past : List Incident} {marks : List (Option Origin)}

/-- The commands that an incident adds to the inbox. -/
def posts (w : World) (i : Incident) : List Command :=
  (w.meet i).system.engine.inbox.drop (w.kept i).length

theorem posts_eq {i : Incident} {posted : List Command}
    (hinbox : w.kept i ++ posted = (w.meet i).system.engine.inbox) : w.posts i = posted := by
  rw [posts, ← hinbox, List.drop_left]

/-- The origins of the commands that an incident does not take. -/
def keptMarks (marks : List (Option Origin)) : Incident → List (Option Origin)
  | .event .command => marks.tail
  | _ => marks

/-- The origins of the queued commands after one more incident. -/
def mark (w : World) (past : List Incident) (marks : List (Option Origin))
    (i : Incident) : List (Option Origin) :=
  -- what is new comes last, and a loop that stops leaves nothing queued
  let count := (w.meet i).system.engine.inbox.length
  (keptMarks marks i ++ List.replicate count (some (Origin.mk past i))).take count

/-- What an incident posts has this incident as its origin. -/
theorem mark_eq {i : Incident} {posted : List Command}
    (hlength : (keptMarks marks i).length = (w.kept i).length)
    (hinbox : w.kept i ++ posted = (w.meet i).system.engine.inbox) :
    w.mark past marks i =
      keptMarks marks i ++ List.replicate (w.posts i).length (some (Origin.mk past i)) := by
  unfold mark
  rw [posts_eq hinbox, ← hinbox, List.length_append, ← hlength, List.take_length_add_append,
    List.take_replicate, Nat.min_eq_left (Nat.le_add_left _ _)]

/-- The origins of the queued commands after more incidents. -/
def trace (w : World) (past : List Incident) (marks : List (Option Origin)) :
    List Incident → List (Option Origin)
  | [] => marks
  | i :: incidents => (w.meet i).trace (past ++ [i]) (w.mark past marks i) incidents

/-- The origins of the queued commands after a run, oldest first. What was queued at its beginning
has none. -/
def origins (w : World) (incidents : List Incident) : List (Option Origin) :=
  w.trace [] (List.replicate w.system.engine.inbox.length none) incidents

theorem trace_append (w : World) (past : List Incident) (marks : List (Option Origin))
    (incidents more : List Incident) :
    w.trace past marks (incidents ++ more) =
      (w.live incidents).trace (past ++ incidents) (w.trace past marks incidents) more := by
  induction incidents generalizing w past marks with
  | nil =>
    rw [List.append_nil]
    rfl
  | cons i incidents ih =>
    show (w.meet i).trace (past ++ [i]) _ (incidents ++ more) = _
    rw [ih, List.append_assoc]
    rfl

/-- What one more incident does to the origins. -/
theorem origins_concat (w : World) (incidents : List Incident) (i : Incident) :
    w.origins (incidents ++ [i]) = (w.live incidents).mark incidents (w.origins incidents) i :=
  w.trace_append [] _ incidents [i]

/-- A command has this origin in a run. -/
def Stems (w : World) (past : List Incident) (command : Command) : Option Origin → Prop
  | none => command ∈ w.system.engine.inbox
  | some origin =>
    (∃ after, past = origin.before ++ origin.incident :: after) ∧
      command ∈ (w.live origin.before).posts origin.incident

theorem Stems.mono {command : Command} {origin : Option Origin} (h : w.Stems past command origin)
    (i : Incident) : w.Stems (past ++ [i]) command origin := by
  cases origin with
  | none => exact h
  | some origin =>
    obtain ⟨⟨after, rfl⟩, hposts⟩ := h
    exact ⟨⟨after ++ [i], by simp⟩, hposts⟩

/-- What has one origin in common. -/
theorem stems_replicate {R : Command → Option Origin → Prop} {commands : List Command}
    {origin : Option Origin} (h : ∀ command ∈ commands, R command origin) :
    List.Forall₂ R commands (List.replicate commands.length origin) := by
  induction commands with
  | nil => exact .nil
  | cons command rest ih =>
    exact .cons (h command List.mem_cons_self)
      (ih fun other hother => h other (List.mem_cons_of_mem _ hother))

theorem kept_stem {R : Command → Option Origin → Prop}
    (h : List.Forall₂ R w.system.engine.inbox marks) (i : Incident) :
    List.Forall₂ R (w.kept i) (keptMarks marks i) := by
  cases i with
  | shutdown => exact h
  | event event =>
    cases event with
    | command =>
      show List.Forall₂ R w.system.engine.inbox.tail marks.tail
      simpa only [List.drop_one] using List.forall₂_drop 1 h
    | _ => exact h

/-- One incident. -/
theorem mark_stem (hs : w₀.system.Numbered)
    (h : List.Forall₂ (w₀.Stems past) (w₀.live past).system.engine.inbox marks) (i : Incident) :
    List.Forall₂ (w₀.Stems (past ++ [i])) ((w₀.live past).meet i).system.engine.inbox
      ((w₀.live past).mark past marks i) := by
  obtain ⟨d, -, hshows⟩ := meet_matter (live_numbered hs past) i
  have hkept : List.Forall₂ (w₀.Stems (past ++ [i])) ((w₀.live past).kept i)
      (keptMarks marks i) := (kept_stem h i).imp fun _ _ hstems => hstems.mono i
  rcases hshows.inbox with ⟨posted, hinbox⟩ | hempty
  · have hnew : List.Forall₂ (w₀.Stems (past ++ [i])) ((w₀.live past).posts i)
        (List.replicate ((w₀.live past).posts i).length (some (Origin.mk past i))) :=
      stems_replicate fun command hmem => ⟨⟨[], rfl⟩, hmem⟩
    rw [mark_eq hkept.length_eq.symm hinbox, ← hinbox]
    rw [posts_eq hinbox] at hnew ⊢
    exact List.rel_append hkept hnew
  -- a loop that has stopped leaves nothing queued
  · rw [mark, hempty]
    exact .nil

theorem trace_stem (hs : w₀.system.Numbered)
    (h : List.Forall₂ (w₀.Stems past) (w₀.live past).system.engine.inbox marks)
    (incidents : List Incident) :
    List.Forall₂ (w₀.Stems (past ++ incidents)) (w₀.live (past ++ incidents)).system.engine.inbox
      ((w₀.live past).trace past marks incidents) := by
  -- on what is yet to happen; what has happened grows at its end, and with it every origin stays
  induction incidents generalizing past marks with
  | nil =>
    rw [List.append_nil]
    exact h
  | cons i incidents ih =>
    have hstep := mark_stem hs h i
    rw [← live_concat] at hstep
    have hrun := ih hstep
    rw [List.append_assoc, live_concat] at hrun
    exact hrun

/-- **The origin of a queued command is an incident of the run, and it posted that command.** -/
theorem origins_stem (hs : w.system.Numbered) (incidents : List Incident) :
    List.Forall₂ (w.Stems incidents) (w.live incidents).system.engine.inbox
      (w.origins incidents) := by
  have hfirst : List.Forall₂ (w.Stems []) w.system.engine.inbox
      (List.replicate w.system.engine.inbox.length none) := stems_replicate fun _ hmem => hmem
  exact @trace_stem w [] _ hs hfirst incidents

end World

end Holdfast
