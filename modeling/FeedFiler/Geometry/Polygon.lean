/-!
# Polygons

Whether a point lies inside a closed ring of vertices: a ray from the point towards growing longitude
crosses an odd number of the ring's edges. The test needs nothing of its numbers but arithmetic and
order.
-/

namespace FeedFiler

/-- A place by latitude and longitude. -/
structure Point (α : Type) where
  lat : α
  lng : α
deriving DecidableEq, Repr

namespace Polygon

variable {α : Type}

/-- The edges of a ring: each vertex with the one before it. -/
def edges (ring : List (Point α)) : List (Point α × Point α) :=
  match ring.getLast? with
  | none => []
  | some last => ring.zip (last :: ring)

variable [Add α] [Sub α] [Mul α] [Div α] [LT α] [DecidableLT α]

/-- The ray from a point crosses the edge from `v` to `w`: the ends of the edge lie on different
sides of the point's latitude, and the edge reaches that latitude beyond the point. -/
def crosses (p v w : Point α) : Bool :=
  (decide (p.lat < v.lat) != decide (p.lat < w.lat)) &&
    decide (p.lng < (w.lng - v.lng) * (p.lat - v.lat) / (w.lat - v.lat) + v.lng)

/-- The point lies inside the ring. Fewer than three vertices have no inside. -/
def inside (p : Point α) (ring : List (Point α)) : Bool :=
  3 ≤ ring.length && (edges ring).foldl (fun odd (v, w) => odd ^^ crosses p v w) false

end Polygon

end FeedFiler
