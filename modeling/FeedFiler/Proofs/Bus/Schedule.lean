import FeedFiler.Bus
import FeedFiler.Proofs.Filer.Following

/-!
# The bus under any schedule

The publisher, the filers and their writes take turns in any order. The publisher publishes envelopes one
after the other, each with waiting for room, and then ends the bus; a filer ends when its channel is
closed and empty and its writes have ended.
-/

namespace FeedFiler.Bus

/-- Who takes a turn. -/
inductive Actor where
  | publisher
  | filer (i : Nat)
  /-- The `n`-th write of a filer. -/
  | write (i n : Nat)

/-- A bus at work. -/
structure Running where
  router : Router
  /-- What is still to be published. -/
  calls : List (Address × Envelope)
  publication : Option Router.Publication := none
  /-- The filers in the order in which they were registered. -/
  workers : List Worker
  files : FileTree
  /-- The publisher has ended the bus. -/
  closed : Bool := false

/-- A bus on which envelopes are to be published. -/
def running (b : Bus) (calls : List (Address × Envelope)) : Running where
  router := b.router
  calls
  workers := b.filers.map fun f => { filer := f }
  files := b.files

namespace Running

/-- A turn of the publisher. It waits when the channel of the next route is full. -/
def publish (s : Running) : Running :=
  match s.publication with
  | some ⟨_, [], delivered⟩ => { s with router := s.router.countDone delivered, publication := none }
  | some ⟨e, id :: ids, delivered⟩ =>
    match s.router.offer e id with
    | (.full, _) => s
    | (.sent, r) => { s with router := r.countSend .sent, publication := some ⟨e, ids, delivered + 1⟩ }
    | (.failed, r) => { s with router := r.countSend .failed, publication := some ⟨e, ids, delivered⟩ }
  | none =>
    match s.calls with
    | [] => { s with closed := true }
    | (address, e) :: calls => { s with
        router := (s.router.startPublishing address e).2
        publication := some (s.router.startPublishing address e).1
        calls }

/-- A turn of a filer. It waits when there is nothing to receive and a write has not ended. -/
def work (s : Running) (i : Nat) : Running :=
  match s.workers[i]? with
  | none => s
  | some k =>
    match k.unscheduled with
    | _ :: _ => { s with workers := s.workers.set i k.schedule }
    | [] =>
      match s.router.receive? i with
      | some (e, router) => { s with router, workers := s.workers.set i (k.hear e.toDocument) }
      | none =>
        if s.closed && k.isIdle then { s with workers := s.workers.set i k.conclude } else s

def write (s : Running) (i n : Nat) : Running :=
  match s.workers[i]? with
  | none => s
  | some k => { s with
      workers := s.workers.set i (k.proceed n s.files).1
      files := (k.proceed n s.files).2 }

def step (s : Running) : Actor → Running
  | .publisher => s.publish
  | .filer i => s.work i
  | .write i n => s.write i n

def run (s : Running) (schedule : List Actor) : Running := schedule.foldl step s

/-- What ending the bus returns, when all filers have ended. -/
def result? (s : Running) : Option (List (String × FilerCounters)) :=
  if s.closed && s.workers.all fun k => k.snapshot.isSome then
    some (s.workers.filterMap fun k => k.snapshot.map fun counters => (k.filer.rule.name, counters))
  else none

end Running

end FeedFiler.Bus

namespace FeedFiler.Filer

/-- The envelopes that are published on the filer's address. -/
def envelopes (f : Filer) (calls : List (Address × Envelope)) : List Envelope :=
  (calls.filter fun call => call.1 = f.rule.source).map Prod.snd

/-- The messages that are published on the filer's address. -/
def messages (f : Filer) (calls : List (Address × Envelope)) : List Document :=
  (f.envelopes calls).map Envelope.toDocument

/-- The locations that the filer writes for these messages. -/
def targets (f : Filer) (t : FileTree) (messages : List Document) : List Location :=
  (f.requests messages).map fun r => t.locate r.path

end FeedFiler.Filer
