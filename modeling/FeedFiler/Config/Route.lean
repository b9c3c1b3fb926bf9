import FeedFiler.Config.Error
import FeedFiler.Geometry.Polygon

/-!
# Routes in the configuration

A route says which messages are stored, in which form, and in which files. Its fields are kept as
they are written.
-/

namespace FeedFiler

/-- How a route writes its files. -/
inductive StoreMode where
  /-- The file is replaced, and its last version kept beside it. -/
  | overwrite
  /-- Each message is a further line. -/
  | append
deriving DecidableEq, Repr

namespace StoreMode

/-- The word for a store mode. -/
def word : StoreMode → String
  | .overwrite => "write"
  | .append => "append"

/-- The store mode of a word. -/
def ofWord? (s : String) : Option StoreMode :=
  if s = "write" then some .overwrite else if s = "append" then some .append else none

end StoreMode

/-- The predicate of a route as it is configured. -/
structure FilterEntry where
  test : String := "="
  key : Option String := none
  value : Option String := none
  values : List String := []
  latKey : String := "acp_lat"
  lngKey : String := "acp_lng"
  points : List (Point Float) := []

namespace FilterEntry

open Config (Shape Field readText readFloat readList)

/-- How a vertex is read. -/
def pointShape : Shape (Point Float) where
  title := "struct PointConfig"
  start := ⟨0, 0⟩
  fields := [
    .of "lat" readFloat (fun p lat => { p with lat }) [] true,
    .of "lng" readFloat (fun p lng => { p with lng }) [] true]

/-- How a predicate is read. -/
def shape : Shape FilterEntry where
  title := "struct SourceFilterConfig"
  start := {}
  fields := [
    .of "test" readText (fun f test => { f with test }) ["compare"],
    .of "key" readText (fun f key => { f with key := some key }) ["field"],
    .of "value" readText fun f value => { f with value := some value },
    .of "values" (readList readText) fun f values => { f with values },
    .of "lat_key" readText fun f latKey => { f with latKey },
    .of "lng_key" readText fun f lngKey => { f with lngKey },
    .of "points" (readList pointShape.read) fun f points => { f with points }]

end FilterEntry

/-- A route as it is configured. -/
structure RouteEntry where
  sourceAddress : Option String := none
  sourceFilter : Option FilterEntry := none
  /-- The list member whose elements are stored one by one. -/
  flatten : Option String := none
  /-- The path of a list whose elements are stored one by one. -/
  recordsData : Option String := none
  /-- The members of a message that each of its elements gets. -/
  mergeBase : List String := []
  /-- The template of the directory. -/
  storePath : Option String := none
  /-- The template of the file's name. -/
  storeName : Option String := none
  storeMode : Option String := none

namespace RouteEntry

open Config (Shape Field readText readList)

/-- How a route is read. -/
def shape : Shape RouteEntry where
  title := "struct RouteConfig"
  start := {}
  fields := [
    .of "source_address" readText fun r address => { r with sourceAddress := some address },
    .of "source_filter" FilterEntry.shape.read fun r filter => { r with sourceFilter := some filter },
    .of "flatten" readText fun r field => { r with flatten := some field },
    .of "records_data" readText fun r path => { r with recordsData := some path },
    .of "merge_base" (readList readText) fun r mergeBase => { r with mergeBase },
    .of "store_path" readText fun r template => { r with storePath := some template },
    .of "store_name" readText fun r template => { r with storeName := some template },
    .of "store_mode" readText fun r mode => { r with storeMode := some mode }]

/-- The store mode: replacing if none is given. -/
def mode (name : String) (r : RouteEntry) : Except ConfigError StoreMode :=
  match r.storeMode with
  | none => .ok .overwrite
  | some word =>
    match StoreMode.ofWord? word with
    | some mode => .ok mode
    | none => .error (.invalidValue .route name "store_mode"
        ("'" ++ word ++ "' (expected 'write' or 'append')"))

/-- Says what is wrong with a route's own fields, if anything. Paths and predicates are not looked
into. -/
def validate (name : String) (r : RouteEntry) : Except ConfigError Unit :=
  if (r.sourceAddress.getD "").isEmpty then .error (.missingField .route name "source_address")
  else if r.storePath.isNone then .error (.missingField .route name "store_path")
  else if (r.storeName.getD "").isEmpty then .error (.missingField .route name "store_name")
  else if r.flatten.isSome ∧ r.recordsData.isSome then
    .error (.conflict .route name "flatten" "records_data")
  else (r.mode name).map fun _ => ()

end RouteEntry

end FeedFiler
