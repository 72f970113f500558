import Intake.Listener.Basic
import Intake.Word

/-! # Building a listener

The queues that are to be served are registered by name and resolved once.  A name that
is registered already, a queue with batches of nothing and a queue that cannot be
resolved are reported and left out. -/

namespace Intake

/-- A queue that is to be served. -/
structure Registration where
  name : String
  options : QueueOptions
  /-- The queue's own handler, if it has one. -/
  handler : Option String
deriving DecidableEq, Repr

/-- Where queues are looked up; a look-up may change the state `σ` of what is asked. -/
structure Lookup (σ : Type) where
  /-- The destination of a queue. -/
  destination : String → σ → Except BrokerError String × σ
  /-- Whether the queue at a destination has a dead-letter queue. -/
  redrive : String → σ → Except BrokerError Bool × σ

/-- Resolve a queue: its destination, then its dead-letter queue. -/
def Lookup.source {σ : Type} (k : Lookup σ) (name : String) (o : QueueOptions) (s : σ) :
    Except ListenerError Source × σ :=
  match k.destination name s with
  | (.error e, s) => (.error (.unresolved name e), s)
  | (.ok dest, s) =>
    match k.redrive dest s with
    | (.error e, s) => (.error (.unresolved name e), s)
    | (.ok r, s) => (.ok ⟨name, dest, o, r⟩, s)

namespace Listener

/-- Sizes are counted in 64 bits. -/
def sized (n : Nat) : Nat := n % size64

/-- Workers that some stations are meant to keep busy. -/
def coreWorkers (settings : ListenerSettings) (stations : List Station) : Nat :=
  sized (stations.length * settings.workersPerQueue)

/-- How many messages of some stations can be in hand. -/
def totalBatch (stations : List Station) : Nat :=
  stations.foldr (fun s n => s.source.options.batch + n) 0

/-- Number of workers for some stations: the fixed one, or one for each message that can
    be in hand. -/
def workerLimit (settings : ListenerSettings) (stations : List Station) : Nat :=
  settings.maxWorkers.getD (sized (totalBatch stations))

/-- The station of a resolved queue, with all slots free. -/
def stationOf (source : Source) (handler : String) : Station :=
  ⟨source, handler, Slots.ofCapacity source.options.batch source.options.wakeAt⟩

/-- Resolve some registrations after others: the stations with the notices on the way,
    newest first. -/
def stationsOf {σ : Type} (k : Lookup σ) (defaultHandler : String) :
    List Registration → List Station → List Notice → σ → List Station × List Notice × σ
  | [], stations, notices, s => (stations, notices, s)
  | r :: rest, stations, notices, s =>
    if stations.any (·.source.name = r.name) then
      stationsOf k defaultHandler rest stations (.repeated r.name :: notices) s
    else if r.options.batch = 0 then
      stationsOf k defaultHandler rest stations (.emptyBatch r.name :: notices) s
    else
      match k.source r.name r.options s with
      | (.error e, s) =>
        stationsOf k defaultHandler rest stations (.unresolved r.name e :: notices) s
      | (.ok source, s) =>
        stationsOf k defaultHandler rest
          (stations ++ [stationOf source (r.handler.getD defaultHandler)]) notices s

/-- A listener with some stations: every queue is stopped and every worker is free. -/
def idle (settings : ListenerSettings) (polling : Polling) (stations : List Station) :
    Listener :=
  { settings, polling, stations
    lifecycle := (stations.map (·.source.name)).foldl Lifecycle.register .empty
    workers := .ofSize (coreWorkers settings stations) (workerLimit settings stations)
    pollers := [], jobs := [], calls := [], accepted := 0, active := true, outbox := [] }

/-- Build a listener: the listener, the notices in order, and what the look-ups left. -/
def build {σ : Type} (k : Lookup σ) (settings : ListenerSettings) (polling : Polling)
    (defaultHandler : String) (rs : List Registration) (s : σ) : Listener × List Notice × σ :=
  let (stations, notices, s) := stationsOf k defaultHandler rs [] [] s
  let l := idle settings polling stations
  (l, (.ready stations.length l.workers.core l.workers.limit :: notices).reverse, s)

end Listener

end Intake
