import FeedFiler.Routing.Table

/-!
# Building a routing table

A builder accepts routes with distinct names, each with one address, as long as there are numbers for
them.
-/

namespace FeedFiler

/-- Why a route is refused. -/
inductive RoutingError where
  | duplicateRoute (name : String)
  | emptyAddress (name : String)
  | tooManyRoutes
deriving DecidableEq, Repr

/-- The text of a refusal. -/
def RoutingError.message : RoutingError → String
  | .duplicateRoute name => "duplicate route '" ++ name ++ "'"
  | .emptyAddress name => "route '" ++ name ++ "' has an empty source address"
  | .tooManyRoutes => "too many routes (max " ++ toString RouteId.count ++ ")"

/-- A routing table in the making, with the numbers of its routes by name. -/
structure RoutingBuilder where
  ids : Std.ExtTreeMap String RouteId := ∅
  table : RoutingTable := {}

namespace RoutingBuilder

/-- The number of a route. -/
def id? (b : RoutingBuilder) (name : String) : Option RouteId := b.ids[name]?

/-- Adds a route with its address. A refused route leaves the builder as it is. -/
def add (b : RoutingBuilder) (name : String) (address : Address) :
    Except RoutingError RouteId × RoutingBuilder :=
  if b.ids.contains name then (.error (.duplicateRoute name), b)
  else if address.isEmpty then (.error (.emptyAddress name), b)
  else if RouteId.count ≤ b.table.routeCount then (.error .tooManyRoutes, b)
  else
    let { ids, table } := b
    let (id, table) := table.register name
    (.ok id, { ids := ids.insert name id, table := table.subscribe address id })

/-- Adds routes one after the other, up to the first one that is refused. -/
def addAll (b : RoutingBuilder) : List (String × Address) →
    Except RoutingError (List RouteId × RoutingBuilder)
  | [] => .ok ([], b)
  | (name, address) :: rest =>
    match b.add name address with
    | (.error cause, _) => .error cause
    | (.ok id, b) => (b.addAll rest).map fun (ids, b) => (id :: ids, b)

end RoutingBuilder

end FeedFiler
