import Mathlib.Data.List.Rotate
import Mathlib.Data.Nat.Bits
import Mathlib.Logic.Relation
import FeedFiler.Geometry.Polygon

/-!
# Rings

A ring of vertices has no first vertex. Its edges are those of a path that comes back to where it began, and
a ray crosses as many of them from wherever the ring is read. None of this asks anything of the numbers: it
holds with rounding, infinities and what is not a number.
-/

namespace FeedFiler.Polygon

variable {α : Type} {ring other : List (Point α)}

/-! ## Paths -/

/-- The edges of a path that comes from `w`: each vertex with the one before it. -/
def trail (w : Point α) : List (Point α) → List (Point α × Point α)
  | [] => []
  | v :: path => (v, w) :: trail v path

theorem trail_eq_zip (w : Point α) (path : List (Point α)) : trail w path = path.zip (w :: path) := by
  induction path generalizing w with
  | nil => rfl
  | cons v path ih => rw [trail, ih, List.zip_cons_cons]

theorem trail_append (w v : Point α) (path rest : List (Point α)) :
    trail w (path ++ v :: rest) = trail w (path ++ [v]) ++ trail v rest := by
  induction path generalizing w with
  | nil => rfl
  | cons u path ih => simp only [List.cons_append, trail, ih]

/-- A ring is the path that comes from its last vertex. -/
theorem edges_concat (path : List (Point α)) (v : Point α) : edges (path ++ [v]) = trail v (path ++ [v]) := by
  rw [edges, List.getLast?_concat, trail_eq_zip]

theorem edges_rotate_one (v : Point α) (path : List (Point α)) :
    (edges (path ++ [v])).Perm (edges (v :: path)) := by
  cases path using List.reverseRecOn with
  | nil => exact .refl _
  | append_singleton path u =>
      have hring : edges (v :: (path ++ [u])) = (v, u) :: trail v (path ++ [u]) := edges_concat (v :: path) u
      rw [edges_concat, hring, List.append_assoc, List.singleton_append, trail_append]
      exact List.perm_append_singleton _ _

/-- From wherever a ring is read, it has the same edges. -/
theorem edges_perm (h : ring ~r other) : (edges ring).Perm (edges other) := by
  obtain ⟨n, rfl⟩ := h
  induction n generalizing ring with
  | zero => rw [List.rotate_zero]
  | succ n ih =>
      cases ring with
      | nil => exact .refl _
      | cons v path =>
          rw [List.rotate_cons_succ]
          exact (edges_rotate_one v path).symm.trans ih

/-! ## Ways to write a ring -/

/-- Another way to write a ring: from another vertex on, with one vertex several times in a row, or closed
by its first vertex. -/
inductive Respelled : List (Point α) → List (Point α) → Prop
  | rotated (ring : List (Point α)) (n : Nat) : Respelled ring (ring.rotate n)
  | repeated (before : List (Point α)) (v : Point α) (after : List (Point α)) (n : Nat) :
    Respelled (before ++ v :: after) (before ++ List.replicate (n + 1) v ++ after)
  | closed (first : Point α) (rest : List (Point α)) : Respelled (first :: rest) (first :: rest ++ [first])

theorem Respelled.length_le (h : Respelled ring other) : ring.length ≤ other.length := by
  cases h with
  | rotated _ n => rw [List.length_rotate]
  | repeated before v after n =>
      simp only [List.length_append, List.length_cons, List.length_replicate]
      omega
  | closed first rest => exact (List.prefix_append (first :: rest) [first]).length_le

/-! ## Crossings -/

theorem countP_cons_toNat {β : Type} (p : β → Bool) (b : β) (bs : List β) :
    (b :: bs).countP p = bs.countP p + (p b).toNat := by
  cases h : p b <;> simp [h]

variable [Add α] [Sub α] [Mul α] [Div α] [LT α] [DecidableLT α] {p : Point α}

/-- How many edges the ray from a point crosses. -/
def crossings (p : Point α) (es : List (Point α × Point α)) : Nat := es.countP fun e => crosses p e.1 e.2

@[simp] theorem crossings_nil (p : Point α) : crossings p [] = 0 := rfl

theorem crossings_cons (p v w : Point α) (es : List (Point α × Point α)) :
    crossings p ((v, w) :: es) = crossings p es + (crosses p v w).toNat := countP_cons_toNat _ _ _

theorem crossings_append (p : Point α) (es fs : List (Point α × Point α)) :
    crossings p (es ++ fs) = crossings p es + crossings p fs := List.countP_append

theorem foldl_crosses (p : Point α) (es : List (Point α × Point α)) (odd : Bool) :
    es.foldl (fun odd (v, w) => odd ^^ crosses p v w) odd = (odd ^^ (crossings p es).bodd) := by
  induction es generalizing odd with
  | nil => simp
  | cons e es ih =>
      obtain ⟨v, w⟩ := e
      have hbit : (crosses p v w).toNat.bodd = crosses p v w := by cases crosses p v w <;> rfl
      rw [List.foldl_cons, ih, crossings_cons, Nat.bodd_add, hbit, Bool.xor_assoc, Bool.xor_comm (crosses p v w)]

/-- A point is inside if its ray crosses an odd number of edges. -/
theorem inside_eq (h : 3 ≤ ring.length) (p : Point α) : inside p ring = (crossings p (edges ring)).bodd := by
  rw [inside, decide_eq_true h, Bool.true_and, foldl_crosses, Bool.false_xor]

theorem crossings_isRotated (h : ring ~r other) : crossings p (edges ring) = crossings p (edges other) :=
  (edges_perm h).countP_eq _

/-- An edge from a vertex to itself is not crossed: its ends lie on the same side of every latitude. -/
theorem crosses_self (p v : Point α) : crosses p v v = false := by
  rw [crosses, bne_self_eq_false, Bool.false_and]

theorem crossings_replicate (p v : Point α) (n : Nat) : crossings p (trail v (List.replicate n v)) = 0 := by
  induction n with
  | zero => rfl
  | succ n ih => rw [List.replicate_succ, trail, crossings_cons, ih, crosses_self]; rfl

/-- The last vertex of a ring may be there any number of times. -/
theorem crossings_repeated (p v : Point α) (path : List (Point α)) (n : Nat) :
    crossings p (edges (path ++ List.replicate (n + 1) v)) = crossings p (edges (path ++ [v])) := by
  have hlast : path ++ List.replicate (n + 1) v = path ++ List.replicate n v ++ [v] := by
    rw [List.replicate_succ', List.append_assoc]
  have hfirst : path ++ List.replicate n v ++ [v] = path ++ v :: List.replicate n v := by
    rw [← hlast, List.replicate_succ]
  rw [hlast, edges_concat, edges_concat, hfirst, trail_append, crossings_append, crossings_replicate,
    Nat.add_zero]

/-! ## Another way to write the ring -/

/-- Another way to write a ring has other edges, but as many of them are crossed. -/
theorem Respelled.crossings_eq (h : Respelled ring other) (p : Point α) :
    crossings p (edges other) = crossings p (edges ring) := by
  cases h with
  | rotated _ n => exact (crossings_isRotated ⟨n, rfl⟩).symm
  | repeated before v after n =>
      -- Read from behind the repeated vertex, so that it comes last.
      have hmany : before ++ List.replicate (n + 1) v ++ after ~r after ++ before ++ List.replicate (n + 1) v := by
        rw [List.append_assoc after]
        exact List.isRotated_append
      have hone : before ++ v :: after ~r after ++ before ++ [v] := by
        rw [List.append_cons, List.append_assoc after]
        exact List.isRotated_append
      rw [crossings_isRotated hmany, crossings_isRotated hone, crossings_repeated]
  | closed first rest =>
      have hlast (path : List (Point α)) : first :: path ~r path ++ [first] :=
        (List.isRotated_concat first path).symm
      have hclosed : first :: rest ++ [first] ~r rest ++ List.replicate 2 first := by
        rw [List.replicate_succ', ← List.append_assoc]
        exact hlast (rest ++ [first])
      rw [crossings_isRotated (hlast rest), crossings_isRotated hclosed, crossings_repeated]

/-- **The vertices are read as a closed ring.** However a ring of at least three vertices is written, a point
is inside or outside all the same. The coordinates may be of any type with any arithmetic and order, doubles
with their rounding among them. -/
theorem inside_respelled (p : Point α) (h3 : 3 ≤ ring.length) (h : Relation.ReflTransGen Respelled ring other) :
    inside p other = inside p ring := by
  have hsame : ring.length ≤ other.length ∧ crossings p (edges other) = crossings p (edges ring) := by
    induction h with
    | refl => exact ⟨Nat.le_refl _, rfl⟩
    | tail _ hstep ih => exact ⟨ih.1.trans hstep.length_le, (hstep.crossings_eq p).trans ih.2⟩
  rw [inside_eq h3, inside_eq (h3.trans hsame.1), hsame.2]

/-- A ring of doubles with a vertex that is infinitely far and one that is nowhere. -/
def farRing : List (Point Float) := [⟨0, 1 / 0⟩, ⟨2, 3⟩, ⟨0 / 0, 1⟩]

/-- The same ring from its second vertex on, which is there three times and closes the ring. -/
def farRingClosed : List (Point Float) := [⟨2, 3⟩, ⟨2, 3⟩, ⟨2, 3⟩, ⟨0 / 0, 1⟩, ⟨0, 1 / 0⟩, ⟨2, 3⟩]

theorem inside_respelled_far :
    3 ≤ farRing.length ∧ Relation.ReflTransGen Respelled farRing farRingClosed ∧
      inside ⟨1, 2⟩ farRing = true ∧ inside ⟨1, 2⟩ farRingClosed = true := by
  have hinside : inside ⟨1, 2⟩ farRing = true := by decide +kernel
  have hwritten : Relation.ReflTransGen Respelled farRing farRingClosed :=
    ((Relation.ReflTransGen.single (Respelled.rotated farRing 1)).tail
      (Respelled.repeated [] ⟨2, 3⟩ [⟨0 / 0, 1⟩, ⟨0, 1 / 0⟩] 2)).tail (Respelled.closed _ _)
  exact ⟨by decide, hwritten, hinside, (inside_respelled ⟨1, 2⟩ (by decide) hwritten).trans hinside⟩

end FeedFiler.Polygon
