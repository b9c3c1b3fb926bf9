import FeedFiler.Address
import FeedFiler.Envelope
import FeedFiler.Files.Store
import FeedFiler.Message.Predicate
import FeedFiler.Message.Reshape
import FeedFiler.Message.Template

/-!
# Filers

A filer stores the messages of one route: its predicate admits a message, its way of reshaping gives
the documents of the message, and its two templates say where each document goes.
-/

namespace FeedFiler

/-- Why a route has no filer. -/
inductive FilerError where
  /-- The route's own fields are wrong. -/
  | entry (cause : ConfigError)
  /-- The predicate or the path of the route is wrong. -/
  | rule (route : String) (cause : RuleError)

/-- The text of a fault. -/
def FilerError.message : FilerError → String
  | .entry cause => cause.message
  | .rule route cause => "route " ++ route ++ ": " ++ cause.message

/-- What a filer does. -/
structure FilerRule where
  name : String
  source : Address
  predicate : Option Predicate := none
  reshape : Reshape := .whole
  /-- The template of the directory. -/
  storePath : String
  /-- The template of the file's name. -/
  storeName : String
  mode : StoreMode := .overwrite

namespace FilerRule

/-- The way of reshaping of a route. -/
def reshapeOf (route : RouteEntry) : Except RuleError Reshape :=
  match route.flatten, route.recordsData with
  | some key, _ => .ok (.flatten key)
  | none, some path => (RecordPath.compile path).map fun path => .extract path route.mergeBase
  | none, none => .ok .whole

/-- The predicate of a route, if it has one. -/
def predicateOf (route : RouteEntry) : Except RuleError (Option Predicate) :=
  match route.sourceFilter with
  | none => .ok none
  | some filter => (Predicate.ofEntry filter).map some

/-- The rule of a route, or the first thing that is wrong with the route. -/
def ofEntry (name : String) (route : RouteEntry) : Except FilerError FilerRule := do
  (route.validate name).mapError .entry
  let predicate ← (predicateOf route).mapError (.rule name)
  let reshape ← (reshapeOf route).mapError (.rule name)
  let mode ← (route.mode name).mapError .entry
  return {
    name
    source := ⟨route.sourceAddress.getD ""⟩
    predicate
    reshape
    storePath := route.storePath.getD ""
    storeName := route.storeName.getD ""
    mode }

/-- The rule admits a message. -/
def admits (rule : FilerRule) (message : Document) : Bool :=
  match rule.predicate with
  | none => true
  | some p => p.evaluate message

/-- The request that writes a document. -/
def requestOf (rule : FilerRule) (doc : Document) : WriteRequest where
  dir := Template.expand rule.storePath doc
  name := Template.expand rule.storeName doc
  content := doc.render

/-- The requests of a message. -/
def requests (rule : FilerRule) (message : Document) : List WriteRequest :=
  if rule.admits message then (rule.reshape.apply message).map rule.requestOf else []

end FilerRule

/-- What a filer has counted. -/
structure FilerCounters where
  /-- Messages. -/
  received : Nat := 0
  /-- Messages that the predicate rejected. -/
  filtered : Nat := 0
  /-- Documents that were written. -/
  stored : Nat := 0
  /-- Documents that could not be written. -/
  failed : Nat := 0
deriving DecidableEq, Repr

/-- How many documents a filer wrote or tried to write. -/
def FilerCounters.written (c : FilerCounters) : Nat := c.stored + c.failed

/-- A filer at work. -/
structure Filer where
  rule : FilerRule
  counters : FilerCounters := {}

namespace Filer

/-- The filer of a route. -/
def ofEntry (name : String) (route : RouteEntry) : Except FilerError Filer :=
  (FilerRule.ofEntry name route).map fun rule => { rule }

/-- Counts a message and says what is to be written for it. -/
def prepare (f : Filer) (message : Document) : List WriteRequest × Filer :=
  (f.rule.requests message, { f with counters := { f.counters with
    received := f.counters.received + 1
    filtered := f.counters.filtered + if f.rule.admits message then 0 else 1 } })

/-- Counts a request that was carried out. -/
def account (f : Filer) (written : Bool) : Filer :=
  { f with counters :=
    if written then { f.counters with stored := f.counters.stored + 1 }
    else { f.counters with failed := f.counters.failed + 1 } }

/-- Carries out requests one after the other, and counts how many succeed. -/
def carryOut : List WriteRequest → Filer → FileTree → Nat × Filer × FileTree
  | [], f, t => (0, f, t)
  | request :: requests, f, t =>
    let (t, result) := t.store f.rule.mode request
    let written := result.isOk
    let (count, f, t) := carryOut requests (f.account written) t
    ((if written then 1 else 0) + count, f, t)

/-- Stores a message; how many of its documents were written. -/
def store (f : Filer) (t : FileTree) (message : Document) : Nat × Filer × FileTree :=
  let (requests, f) := f.prepare message
  carryOut requests f t

/-- Stores messages one after the other. -/
def storeAll (f : Filer) (t : FileTree) (messages : List Document) : Filer × FileTree :=
  messages.foldl (fun (f, t) message => (f.store t message).2) (f, t)

end Filer

end FeedFiler
