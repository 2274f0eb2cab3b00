import Holdfast.Engine.Start

/-!
# Sites

A site is a disk and a device on which engines run one after the other. An engine that was
stopped is followed by another one over the same disk, but it is not gone: passes that it had
in flight may still come to their end, and handles of its sessions still lead to it.

* `Site.restart` starts an engine in place of the one in charge;
* `Site.call` makes a call into an engine;
* `Site.settle` runs every engine to rest;
* `Site.release` lets calls that were held back come back;
* `Site.advance` lets time pass, millisecond by millisecond.
-/

namespace Holdfast

/-- A disk and a device with the engines that run on them. -/
structure Site where
  disk : Disk := {}
  device : Device := {}
  /-- Engines by number, oldest first. -/
  engines : List (Nat × Engine) := []
  /-- The engine in charge. -/
  current : Option Nat := none
  /-- Number of the next engine. -/
  nextEngine : Nat := 0

namespace Site

instance : Inhabited Site := ⟨{}⟩

/-- The engine of a number. -/
def engine? (site : Site) (number : Nat) : Option Engine := site.engines.lookup number

/-- The engine in charge. -/
def currentEngine? (site : Site) : Option Engine := site.current.bind site.engine?

/-- Replace an engine. -/
def setEngine (site : Site) (number : Nat) (engine : Engine) : Site :=
  { site with
    engines := site.engines.map fun entry => if entry.1 = number then (number, engine) else entry }

/-- Let something happen to an engine. -/
def onSystem {α : Type} (site : Site) (number : Nat) (f : System → α × System) :
    Option α × Site :=
  match site.engine? number with
  | none => (none, site)
  | some engine =>
    let (answer, s) := f ⟨site.disk, site.device, engine⟩
    (some answer, { site with disk := s.disk, device := s.device }.setEngine number s.engine)

/-- Make a call into the engine in charge; `none` when there is none. -/
def call {α : Type} (site : Site) (f : System → α × System) : Option α × Site :=
  match site.current with
  | some number => site.onSystem number f
  | none => (none, site)

/-- Let something happen to every engine, the oldest first. -/
def onAll (site : Site) (f : System → System) : Site :=
  site.engines.foldl (fun site entry => (site.onSystem entry.1 fun s => ((), f s)).2) site

/-- Run every engine to rest. -/
def settle (site : Site) : Site := site.onAll System.rest

/-- Let calls of methods of a transport come back again, in the given order. -/
def release (site : Site) (transport : String) (methods : List TransportMethod) : Site :=
  methods.foldl (fun site method =>
    let site := site.onAll fun s => s.wake transport method
    { site with device := site.device.release transport method }) site

/-- Let time pass, millisecond by millisecond. -/
def advance (site : Site) : Nat → Site
  | 0 => site
  | ms + 1 => (site.onAll System.tick).advance ms

/-- Start an engine in place of the one in charge, whose control loop is stopped. -/
def restart (site : Site) (settings : Settings) : Except Fault Unit × Site :=
  let (_, site) := site.call fun s => ((), s.stopLoop)
  -- after a failed start no engine is in charge
  let site := { site with current := none }
  match System.start settings site.disk site.device with
  | .error (fault, disk) => (.error fault, { site with disk })
  | .ok s =>
    let number := site.nextEngine
    (.ok (),
      { site with
        disk := s.disk
        device := s.device
        engines := site.engines ++ [(number, s.engine)]
        current := some number
        nextEngine := number + 1 }.settle)

end Site

end Holdfast
