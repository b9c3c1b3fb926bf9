import FeedFiler.Router.Channel
import FeedFiler.Routing.Builder

/-!
# The router

The router hands each published envelope to the channels of the routes that subscribed to its
address. Publishing either never waits, and a full channel misses the envelope, or it waits for full
channels one after the other.
-/

namespace FeedFiler

/-- What a router has counted. -/
structure RouterCounters where
  /-- Published envelopes. -/
  received : Nat := 0
  /-- Envelopes that at least one filer got. -/
  routed : Nat := 0
  /-- The other envelopes. -/
  dropped : Nat := 0
  sent : Nat := 0
  failed : Nat := 0
  /-- Sends that failed because the channel was full. -/
  refused : Nat := 0
  /-- The records of all published envelopes. -/
  records : Nat := 0
deriving DecidableEq, Repr

/-- The sending side of a filer's channel. -/
structure FilerHandle where
  name : String
  /-- Which of the router's channels it is. -/
  channel : Nat
deriving DecidableEq, Repr

/-- A router with its channels. -/
structure Router where
  table : RoutingTable
  /-- The filers by the numbers of their routes. -/
  handles : Std.ExtTreeMap RouteId FilerHandle := ∅
  /-- All channels that were ever made, also those of filers that were replaced. -/
  channels : List Channel := []
  counters : RouterCounters := {}

namespace Router

/-- The number of filers. -/
def filerCount (r : Router) : Nat := r.handles.size

/-- Makes a channel for the filer of a route. It replaces the one that the route had. -/
def register (r : Router) (id : RouteId) (name : String) (capacity : Nat) : Router :=
  { r with
    handles := r.handles.insert id ⟨name, r.channels.length⟩
    channels := r.channels ++ [{ capacity }] }

/-- The channel of a route. -/
def channelOf? (r : Router) (id : RouteId) : Option Channel :=
  (r.handles[id]?).bind fun handle => r.channels[handle.channel]?

/-- Takes the oldest envelope of a channel. -/
def receive? (r : Router) (channel : Nat) : Option (Envelope × Router) := do
  let c ← r.channels[channel]?
  let (e, c) ← c.receive?
  some (e, { r with channels := r.channels.set channel c })

/-- Takes the oldest envelopes of a channel, at most `count`. -/
def takeUpTo (count : Nat) (r : Router) (channel : Nat) : List Envelope × Router :=
  match r.channels[channel]? with
  | none => ([], r)
  | some c =>
    (c.queue.take count,
      { r with channels := r.channels.set channel { c with queue := c.queue.drop count } })

/-- Takes all envelopes of a channel. -/
def takeAll (r : Router) (channel : Nat) : List Envelope × Router :=
  match r.channels[channel]? with
  | none => ([], r)
  | some c => (c.queue, { r with channels := r.channels.set channel { c with queue := [] } })

/-- The receiver of a channel goes away. -/
def close (r : Router) (channel : Nat) : Router :=
  { r with channels := r.channels.modify channel Channel.close }

/-- How a router describes itself. -/
def describe (r : Router) : String :=
  "Router \x7b filer_count: " ++ toString r.filerCount ++ ", route_count: " ++
    toString r.table.routeCount ++ " \x7d"

/-! ## Publishing -/

/-- What became of an envelope on its way to one filer. -/
inductive Delivery where
  | sent
  /-- The route has no filer, or its filer is gone. -/
  | failed
  /-- The channel has no room. -/
  | full
deriving DecidableEq, Repr

/-- Hands an envelope to the filer of a route. -/
def offer (r : Router) (e : Envelope) (id : RouteId) : Delivery × Router :=
  match r.handles[id]? with
  | none => (.failed, r)
  | some handle =>
    match r.channels[handle.channel]? with
    | none => (.failed, r)
    | some c =>
      match c.send e with
      | .ok c => (.sent, { r with channels := r.channels.set handle.channel c })
      | .error .closed => (.failed, r)
      | .error .full => (.full, r)

/-- Counts a published envelope. -/
def countReceived (r : Router) (e : Envelope) : Router :=
  { r with counters := { r.counters with
    received := r.counters.received + 1
    records := r.counters.records + e.records.length } }

/-- Counts an envelope that `delivered` filers got. -/
def countDone (r : Router) (delivered : Nat) : Router :=
  { r with counters :=
    if 0 < delivered then { r.counters with routed := r.counters.routed + 1 }
    else { r.counters with dropped := r.counters.dropped + 1 } }

/-- Counts a send. A full channel counts as a failure and as a refusal. -/
def countSend (r : Router) : Delivery → Router
  | .sent => { r with counters := { r.counters with sent := r.counters.sent + 1 } }
  | .failed => { r with counters := { r.counters with failed := r.counters.failed + 1 } }
  | .full => { r with counters := { r.counters with
      failed := r.counters.failed + 1
      refused := r.counters.refused + 1 } }

/-- Sends an envelope to some routes without waiting, and counts how many filers got it. -/
def sendAll (e : Envelope) : List RouteId → Router → Nat × Router
  | [], r => (0, r)
  | id :: ids, r =>
    let (delivery, r) := r.offer e id
    let (delivered, r) := sendAll e ids (r.countSend delivery)
    ((if delivery = .sent then 1 else 0) + delivered, r)

/-- Publishes an envelope without waiting; how many filers got it. -/
def publish (r : Router) (address : Address) (e : Envelope) : Nat × Router :=
  let (delivered, r) := sendAll e (r.table.route address) (r.countReceived e)
  (delivered, r.countDone delivered)

/-! ## Publishing with waiting -/

/-- A publication under way. -/
structure Publication where
  envelope : Envelope
  /-- The routes that are still to be served. -/
  remaining : List RouteId
  /-- How many filers have got the envelope. -/
  delivered : Nat := 0

/-- Begins to publish an envelope. -/
def startPublishing (r : Router) (address : Address) (e : Envelope) : Publication × Router :=
  (⟨e, r.table.route address, 0⟩, r.countReceived e)

/-- Serves routes up to the first one whose channel is full, or that would get one send more than
allowed; the routes that are left, and how many filers have got the envelope. -/
def serve (e : Envelope) : List RouteId → Nat → Nat → Router → (List RouteId × Nat) × Router
  | [], _, delivered, r => (([], delivered), r)
  | id :: ids, allowed, delivered, r =>
    match r.offer e id, allowed with
    | (.failed, r), allowed => serve e ids allowed delivered (r.countSend .failed)
    | (.sent, r), allowed + 1 => serve e ids allowed (delivered + 1) (r.countSend .sent)
    | (.sent, _), 0 | (.full, _), _ => ((id :: ids, delivered), r)

/-- Goes on with a publication, with at most `allowed` sends. It is finished, and counted, when no
route is left. -/
def advanceUpTo (allowed : Nat) (r : Router) (p : Publication) : Publication × Router :=
  let ((remaining, delivered), r) := serve p.envelope p.remaining allowed p.delivered r
  ({ p with remaining, delivered }, if remaining.isEmpty then r.countDone delivered else r)

/-- Goes on with a publication as far as there is room. -/
def advance (r : Router) (p : Publication) : Publication × Router :=
  r.advanceUpTo p.remaining.length p

end Router

end FeedFiler
