import Intake.Config.Load
import Intake.Outbox
import Intake.Rehearsal.Scene
import Intake.Service.Heartbeat
import Intake.Service.Report
import Intake.Sqs.Client

/-! # The program

The program loads its configuration, builds a listener for the configured queues and
serves them until it is told to stop.  Its handler reports each message and, where that
is the handler's part, deletes it.

* `Service.load`      the configuration, with what is reported on the way
* `Service.launch`    the listener in its surroundings
* `Service.timeline`  how it goes on in time
* `Service.close`     what it does when it is told to stop -/

namespace Intake

/-- The program at work. -/
structure Service where
  scene : Scene
  /-- Queues to which heartbeats are sent. -/
  audience : List String
  /-- The instant of the next heartbeat, if there are any. -/
  beat : Option Nat
  /-- What was reported, newest first. -/
  reports : List Report

namespace Service

/-! ## Beginning -/

/-- What is reported about the file of the configuration. -/
def fileReports (files : Files) (env : Environment) (path : Option String) : List Report :=
  (path.filter fun p => (files p).isNone).toList.map .pathMissing
    ++ (Config.find? files env path).toList.map .loading

/-- Load the configuration.  One for the queue service keeps to its limits too; that is
    checked only after the beginning is reported. -/
def load (files : Files) (env : Environment) (path : Option String) :
    List Report × Except ConfigError Config :=
  let found := fileReports files env path
  match Config.load files env path with
  | .error e => (found, .error e)
  | .ok c =>
    let reports := found ++ [.starting c.queues.length c.inMemory]
    match if c.inMemory then none else c.sqsFault? with
    | some f => (reports, .error (.invalid f))
    | none => (reports, .ok c)

/-- The store of queues in memory: queues are made when they are asked for, and a receive
    call waits for a second if it does not say. -/
def store (wallClock : Nat) : LeaseStore :=
  { LeaseStore.empty with autoCreate := true, wait := 1000, wallClock }

/-- Look-ups at the queue service, of which no request arrives. -/
def offlineLookup (autoCreate : Bool) : Lookup Broker where
  destination name b := ((Sqs.resolve autoCreate name).offline.1, b)
  redrive dest b := ((Sqs.redriveRule dest).offline.map (·.isSome), b)

/-- How the broker is reached, and what is reported about it. -/
def brokerOf (c : Config) : Lookup Broker × List Report :=
  if c.inMemory then (Broker.lookup, [.usingMemory])
  else (offlineLookup c.sqs.autoCreate, c.sqs.endpoint.toList.map .customEndpoint)

/-- The queues as they are registered. -/
def registrations (c : Config) : List Registration :=
  c.queues.map fun q => ⟨q.name, c.options q, none⟩

/-- The handler takes no time. -/
def conduct : Conduct := ⟨.empty, [⟨0, .acknowledgeGiven⟩]⟩

/-- What can be seen of a scene and is reported. -/
def reportOf? : Sight → Option Report
  | .notice n => some (.listener n)
  | .handling _ letter _ => some (.received letter)
  | _ => none

/-- Report what was seen. -/
def drain (s : Service) : Service :=
  { s with scene := { s.scene with seen := [] }
           reports := s.scene.seen.filterMap (fun e => reportOf? e.2) ++ s.reports }

/-- Report something. -/
def report (s : Service) (r : Report) : Service := { s with reports := r :: s.reports }

/-- Feed the listener something. -/
def feed (now : Nat) (x : Stimulus) (s : Service) : Service :=
  { s with scene := s.scene.feed now x }.drain

/-- The number of the call that starts all queues. -/
def startCall : Nat := 0

/-- The number of the call that shuts the listener down. -/
def shutdownCall : Nat := 1

/-- Build the listener and start its queues, at an instant on the wall clock. -/
def launch (c : Config) (wallClock : Nat) : Service :=
  let (lookup, reports) := brokerOf c
  let (l, notices, b) := Listener.build lookup c.listener .bySlots "default" (registrations c)
    (.stored (store wallClock))
  let s : Service :=
    { scene := Scene.start l b conduct false
      audience := l.registered
      beat := if c.inMemory then some 0 else none
      reports := (reports ++ notices.map Report.listener).reverse }
  let s := if l.registered.isEmpty then s.report .nothingToServe else s
  if c.autoStart then s.feed 0 (.startAll startCall) else s.report .autoStartOff

/-! ## Going on -/

/-- Send a heartbeat to one queue. -/
def beatTo (now : Nat) (s : Service) (q : String) : Service :=
  match s.scene.broker with
  | .scripted _ => s
  | .stored b =>
    match b.resolve q with
    | (.error e, b) =>
      { s with scene := { s.scene with broker := .stored b } }.report (.heartbeatFailed q e)
    | (.ok dest, b) =>
      match { s.scene with broker := .stored b }.send now dest
          (Heartbeat.message (b.wallClock + now)).render 0 with
      | (.error e, scene) => { s with scene }.report (.heartbeatFailed q e)
      | (.ok _, scene) => { s with scene }

/-- Send heartbeats if it is time. -/
def beat? (now : Nat) (s : Service) : Option Service :=
  match s.beat with
  | some t =>
    if t ≤ now then
      some { s.audience.foldl (beatTo now) s with beat := some (t + Heartbeat.interval) }
    else none
  | none => none

/-- The program in time. -/
def timeline : Timeline Service where
  act? now s :=
    match s.beat? now with
    | some s => some s
    | none => (Scene.timeline.act? now s.scene).map fun scene => { s with scene }.drain
  next? s := earliest (s.beat.toList ++ (Scene.timeline.next? s.scene).toList)

/-! ## Ending -/

/-- The program is told to stop: no more heartbeats, and the listener shuts down. -/
def beginClose (now : Nat) (s : Service) : Service :=
  ({ s with beat := none }.report .signalled).feed now (.shutdown shutdownCall)

/-- Whether the listener has shut down, once the program has been told to stop. -/
def isClosed (s : Service) : Bool := s.scene.listener.calls.isEmpty

/-- The listener has shut down. -/
def finishClose (s : Service) : Service := s.report .stopped

/-- Stop at an instant: the instant at which that is done, and the program then. -/
def close (now : Nat) (s : Service) : Nat × Service :=
  match timeline.runUntil isClosed (s.scene.callLimit now) now (s.beginClose now) with
  | (t, s) => (t, s.finishClose)

end Service

end Intake
