import Std.Data.ExtTreeMap
import FeedFiler.Address

/-!
# Routing tables

A table numbers its routes in the order in which they are registered, and lists for each address the
routes that subscribed to it, each of them once and the first one first.
-/

namespace FeedFiler

/-- The number of a route. Numbers have 16 bits: after `65535` they start again with `0`. -/
structure RouteId where
  index : UInt16
deriving DecidableEq, Repr

namespace RouteId

/-- Numbers are ordered by size. -/
instance : Ord RouteId where
  compare a b := compare a.index b.index

instance : Std.TransOrd RouteId where
  eq_swap := (inferInstance : Std.TransOrd UInt16).eq_swap
  isLE_trans := (inferInstance : Std.TransOrd UInt16).isLE_trans

instance : Std.LawfulEqOrd RouteId where
  compare_self := (inferInstance : Std.LawfulEqOrd UInt16).compare_self
  eq_of_compare {a b} h := by
    obtain ⟨a⟩ := a
    obtain ⟨b⟩ := b
    exact congrArg RouteId.mk ((inferInstance : Std.LawfulEqOrd UInt16).eq_of_compare h)

/-- How many different numbers there are. -/
def count : Nat := 65536

/-- The number that the `n`-th route gets. -/
def ofNat (n : Nat) : RouteId := ⟨UInt16.ofNat n⟩

/-- The number as text. -/
def text (id : RouteId) : String := "route:" ++ toString id.index.toNat

end RouteId

/-- Routes with names, and their subscriptions. -/
structure RoutingTable where
  /-- The names of the routes in the order of their registration. -/
  names : Array String := #[]
  subscriptions : Std.ExtTreeMap Address (List RouteId) := ∅

namespace RoutingTable

/-- The number of routes. -/
def routeCount (t : RoutingTable) : Nat := t.names.size

/-- The number of addresses with subscribers. -/
def addressCount (t : RoutingTable) : Nat := t.subscriptions.size

/-- The routes that subscribed to an address, the first one first. -/
def route (t : RoutingTable) (address : Address) : List RouteId := (t.subscriptions[address]?).getD []

/-- Some route subscribed to the address. -/
def hasSubscribers (t : RoutingTable) (address : Address) : Bool := t.subscriptions.contains address

/-- The name of a route. -/
def routeName? (t : RoutingTable) (id : RouteId) : Option String := t.names[id.index.toNat]?

/-- Adds a route, which gets the next number. -/
def register (t : RoutingTable) (name : String) : RouteId × RoutingTable :=
  (RouteId.ofNat t.names.size, { t with names := t.names.push name })

/-- Adds a route to the subscribers of an address, unless it is one of them. -/
def subscribe (t : RoutingTable) (address : Address) (id : RouteId) : RoutingTable :=
  let ids := t.route address
  { t with
    subscriptions := t.subscriptions.insert address (if ids.contains id then ids else ids ++ [id]) }

/-- All addresses with their subscribers, in the order of the addresses. -/
def toList (t : RoutingTable) : List (Address × List RouteId) := t.subscriptions.toList

end RoutingTable

end FeedFiler
