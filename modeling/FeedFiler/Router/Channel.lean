import FeedFiler.Envelope
import FeedFiler.Routing.Table
import FeedFiler.Text.Quoted

/-!
# Channels

A channel is a bounded queue of envelopes on the way to one filer. Its receiver takes envelopes in
the order in which they were sent, and can close it.
-/

namespace FeedFiler

/-- A bounded queue of envelopes. -/
structure Channel where
  capacity : Nat
  /-- The envelopes that were sent and not yet received, the oldest first. -/
  queue : List Envelope := []
  /-- The receiver is gone. -/
  closed : Bool := false

namespace Channel

/-- Why an envelope cannot be sent. -/
inductive Refusal where
  | full
  | closed
deriving DecidableEq, Repr

/-- The most envelopes for which a channel can be made. -/
def maxCapacity : Nat := 2305843009213693951

/-- The number of envelopes that could still be queued. -/
def free (c : Channel) : Nat := c.capacity - c.queue.length

/-- Queues an envelope. -/
def send (c : Channel) (e : Envelope) : Except Refusal Channel :=
  if c.closed then .error .closed
  else if c.free = 0 then .error .full
  else .ok { c with queue := c.queue ++ [e] }

/-- Takes the oldest envelope. -/
def receive? (c : Channel) : Option (Envelope × Channel) :=
  match c.queue with
  | [] => none
  | e :: rest => some (e, { c with queue := rest })

/-- The receiver goes away, and what is queued is lost. -/
def close (c : Channel) : Channel := { c with queue := [], closed := true }

/-- How the sending side of a channel describes itself. -/
def describe (c : Channel) (id : RouteId) (name : String) : String :=
  "FilerHandle \x7b id: RouteId(" ++ toString id.index.toNat ++ "), name: " ++ Text.quote name ++
    ", closed: " ++ (if c.closed then "true" else "false") ++ " \x7d"

end Channel

end FeedFiler
