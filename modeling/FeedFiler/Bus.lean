import FeedFiler.Filer
import FeedFiler.Router

/-!
# The bus

A bus is a router with a filer behind each of its channels. The publisher, the filers and the writes
that they ask for take turns. In a turn of its own the publisher sends, or a filer receives, a limited
number of envelopes. The publisher's turn ends when it has to wait; its next one comes when nobody
else is ready, or after a round of turns of others. Who becomes ready waits behind those who are.
-/

namespace FeedFiler

/-- Who takes turns with the publisher. -/
inductive Bus.Task where
  /-- The filer of a channel. -/
  | filer (channel : Nat)
  /-- A write that a filer asked for. -/
  | write
deriving DecidableEq, Repr

/-- Why a bus does not start. -/
inductive Bus.StartError where
  /-- The route of a filer is refused. -/
  | routing (cause : RoutingError)
  /-- No channel can be made for so many envelopes. -/
  | capacity
deriving DecidableEq, Repr

/-- The text of a failed start. -/
def Bus.StartError.message : Bus.StartError → String
  | .routing cause => cause.message
  | .capacity => "a semaphore may not have more than MAX_PERMITS permits (" ++
      toString Channel.maxCapacity ++ ")"

/-- How many envelopes are sent or received in one turn. -/
def Bus.turnLength : Nat := 128

/-- How many turns others have between two turns of the publisher. -/
def Bus.roundLength : Nat := 61

/-- A router, the filers of its channels in the order of the channels, the files they write, and
whose turn it is. -/
structure Bus where
  router : Router
  filers : List Filer
  files : FileTree
  /-- Those who wait for their turn, the next one first. The filer of a channel that holds an envelope
  is among them. -/
  ready : List Bus.Task := []
  /-- How many envelopes the publisher may still send in its turn. -/
  allowance : Nat := Bus.turnLength

namespace Bus

/-- Registers filers under their numbers, each with a channel of its own. -/
def registerAll (r : Router) (capacity : Nat) (filers : List (RouteId × Filer)) : Router :=
  filers.foldl (fun r (id, f) => r.register id f.rule.name capacity) r

/-- Starts a bus. Names are distinct, addresses are not empty, and each channel has room for at least
one envelope and for no more than a channel can hold. -/
def start (filers : List Filer) (queueSize : Nat) (files : FileTree) : Except StartError Bus := do
  let (ids, builder) ← (RoutingBuilder.addAll {} (filers.map fun f => (f.rule.name, f.rule.source))).mapError
    .routing
  let capacity := max queueSize 1
  if filers ≠ [] ∧ Channel.maxCapacity < capacity then .error .capacity
  else
    let router := registerAll { table := builder.table } capacity (ids.zip filers)
    .ok { router, filers, files, ready := (List.range filers.length).map .filer }

/-! ## Turns -/

/-- The channel holds an envelope. -/
def holdsEnvelope (b : Bus) (channel : Nat) : Bool :=
  (b.router.channels[channel]?).any fun c => !c.queue.isEmpty

/-- Makes those filers ready that have got an envelope and were not ready. -/
def call (b : Bus) : Bus :=
  let called := (List.range b.filers.length).filter fun channel =>
    b.holdsEnvelope channel && !b.ready.contains (.filer channel)
  { b with ready := b.ready ++ called.map .filer }

/-- The turn of a filer, and whether it received as much as it may in one turn. What it asks to write
becomes ready. -/
def takeTurn (b : Bus) (channel : Nat) : Bool × Bus :=
  match b.filers[channel]? with
  | none => (false, b)
  | some f =>
    let (received, router) := b.router.takeUpTo turnLength channel
    let (after, files) := f.storeAll b.files (received.map Envelope.toDocument)
    let writes := after.counters.written - f.counters.written
    (received.length == turnLength, { b with
      router
      files
      filers := b.filers.set channel after
      ready := b.ready ++ List.replicate writes .write })

/-- Some turns of those who are ready. Filers that used up their turn are ready again at the end, the
last one first; `late` are those so far. -/
def takeTurns : Nat → List Nat → Bus → Bus
  | 0, late, b => { b with ready := b.ready ++ late.map .filer }
  | turns + 1, late, b =>
    match b.ready with
    | [] => { b with ready := late.map .filer }
    | .write :: ready => takeTurns turns late { b with ready }
    | .filer channel :: ready =>
      let (usedUp, b) := takeTurn { b with ready } channel
      takeTurns turns (if usedUp then channel :: late else late) b

/-- The turns of others up to the publisher's next turn. -/
def round (b : Bus) : Bus := { takeTurns roundLength [] b with allowance := turnLength }

/-- The rounds up to the first in which the filer of a channel has its turn. -/
def waitFor (b : Bus) (channel : Nat) : Bus :=
  Nat.repeat round (b.ready.idxOf (.filer channel) / roundLength + 1) b

/-! ## Publishing -/

/-- Publishes an envelope without waiting; how many filers got it. -/
def publish (b : Bus) (address : Address) (e : Envelope) : Nat × Bus :=
  let (delivered, router) := b.router.publish address e
  (delivered, { b with router }.call)

/-- Goes on with a publication within the publisher's turn. -/
def advance (b : Bus) (p : Router.Publication) : Router.Publication × Bus :=
  let (after, router) := b.router.advanceUpTo b.allowance p
  (after, { b with router, allowance := b.allowance - (after.delivered - p.delivered) }.call)

/-- The turns of others up to the next one of a publisher who cannot serve a route: the publisher has
used up its turn, or the route's channel is full. -/
def waitToServe (b : Bus) (id : RouteId) : Bus :=
  match b.router.handles[id]? with
  | none => b.round
  | some handle => if b.allowance = 0 then b.round else b.waitFor handle.channel

/-- Goes on with a publication until no route is left, in at most so many turns. A route takes at most
three: one that is used up, one that finds the channel full, and one that finds room. -/
def complete : Nat → Router.Publication → Bus → Nat × Bus
  | 0, p, b => (p.delivered, b)
  | turns + 1, p, b =>
    let (p, b) := b.advance p
    match p.remaining with
    | [] => (p.delivered, b)
    | id :: _ => complete turns p (b.waitToServe id)

/-- Publishes an envelope and waits for room in each channel; how many filers got it. -/
def publishBlocking (b : Bus) (address : Address) (e : Envelope) : Nat × Bus :=
  let (p, router) := b.router.startPublishing address e
  complete (2 * p.remaining.length + 1) p { b with router }

/-! ## Idling -/

/-- Lets filers work off their channels, the first of which has number `channel`. -/
def workOff (channel : Nat) : List Filer → Router → FileTree → List Filer × Router × FileTree
  | [], r, t => ([], r, t)
  | f :: filers, r, t =>
    let (queue, r) := r.takeAll channel
    let (f, t) := f.storeAll t (queue.map Envelope.toDocument)
    let (filers, r, t) := workOff (channel + 1) filers r t
    (f :: filers, r, t)

/-- Lets every filer work off its channel, until nobody is ready. -/
def drain (b : Bus) : Bus :=
  let (filers, router, files) := workOff 0 b.filers b.router b.files
  { router, filers, files }

/-- Ends a bus: the filers work off what is queued. -/
def shutdown (b : Bus) : List (String × FilerCounters) × FileTree :=
  let b := b.drain
  (b.filers.map fun f => (f.rule.name, f.counters), b.files)

end Bus

end FeedFiler
