import FeedFiler.Bus
import FeedFiler.Feed
import FeedFiler.Run.Replay

/-!
# Ingesting

An ingest reads payloads of one feed and publishes their envelopes on a bus with the filers of all
routes. At its end it waits for every filer. One that ends early does not wait: its files are as the
filers have left them by then, and what is queued stays there.
-/

namespace FeedFiler.Ingest

/-- A payload file and when it is read. -/
structure Arrival where
  path : String
  time : Instant

/-- The feed of a name. -/
def feedOf (c : Config) (name : String) : Except RunError Feed := do
  let entry ← (c.feed name).mapError .lookup
  (Feed.ofEntry name entry).mapError (.feed name)

/-- The envelope of a payload file. -/
def envelopeOf (feed : Feed) (t : FileTree) (arrival : Arrival) : Except RunError Envelope :=
  match t.read arrival.path with
  | .error cause => .error (.unreadable arrival.path cause.message)
  | .ok payload => (feed.ingest arrival.time payload).mapError (.payload arrival.path)

/-- Publishes the envelopes of payload files up to the first that gives none. The filers work off
their channels while the payload of a file comes in; a file that cannot be read is refused at once. -/
def publishAll (feed : Feed) : List Arrival → Bus → Bus × Except RunError Unit
  | [], b => (b, .ok ())
  | arrival :: arrivals, b =>
    match envelopeOf feed b.files arrival with
    | .error cause => (b, .error cause)
    | .ok e => publishAll feed arrivals (b.drain.publishBlocking feed.address e).2

/-- Ingests payload files; what each filer counted. -/
def run (c : Config) (feed : String) (arrivals : List Arrival) (t : FileTree) :
    FileTree × Except RunError (List (String × FilerCounters)) :=
  match feedOf c feed with
  | .error cause => (t, .error cause)
  | .ok feed =>
    match Bus.start c.filers c.queueSize t with
    | .error cause => (t, .error (.bus cause))
    | .ok b =>
      match publishAll feed arrivals b with
      | (b, .error cause) => (b.files, .error cause)
      | (b, .ok ()) =>
        let (counters, t) := b.shutdown
        (t, .ok counters)

end FeedFiler.Ingest
