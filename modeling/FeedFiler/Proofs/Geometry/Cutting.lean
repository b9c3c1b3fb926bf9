import Mathlib.Algebra.Order.Field.Basic
import Mathlib.Data.Rat.Lemmas
import Mathlib.Tactic.FieldSimp
import Mathlib.Tactic.Ring
import FeedFiler.Proofs.Geometry.Ring

/-!
# Rings cut in two

With exact arithmetic an edge may be walked in either direction. A ring that is cut along the line between two of
its vertices has two parts, and a point is inside the ring if it is inside exactly one of them.
-/

namespace FeedFiler.Polygon

/-! ## The two parts -/

section Parts

variable {α : Type}

/-- The part of a ring from one position on to another. -/
def partBetween (ring : List (Point α)) (i j : Nat) : List (Point α) := (ring.drop i).take (j + 1 - i)

/-- The other part: from the second position on over the end of the list to the first one. -/
def partAround (ring : List (Point α)) (i j : Nat) : List (Point α) := ring.drop j ++ ring.take (i + 1)

theorem exists_split {ring : List (Point α)} {i : Nat} (h : i < ring.length) :
    ∃ before v after, ring = before ++ v :: after ∧ before.length = i :=
  ⟨ring.take i, ring[i], ring.drop (i + 1),
    by rw [List.getElem_cons_drop, List.take_append_drop], List.length_take_of_le h.le⟩

/-- A ring and its parts, from the two vertices where it is cut. -/
theorem exists_cut {ring : List (Point α)} {i j : Nat} (hij : i < j) (hj : j < ring.length) :
    ∃ before v between w after, ring = before ++ v :: (between ++ w :: after) ∧
      partBetween ring i j = v :: (between ++ [w]) ∧ partAround ring i j = w :: (after ++ before ++ [v]) := by
  obtain ⟨before, v, rest, rfl, rfl⟩ := exists_split (hij.trans hj)
  have hrest : j - before.length - 1 < rest.length := by
    rw [List.length_append, List.length_cons] at hj
    omega
  obtain ⟨between, w, after, rfl, hbetween⟩ := exists_split hrest
  obtain rfl : j = before.length + (between.length + 1) := by omega
  refine ⟨before, v, between, w, after, rfl, ?_, ?_⟩
  · have hcount : before.length + (between.length + 1) + 1 - before.length = between.length + 1 + 1 := by omega
    rw [partBetween, List.drop_left, hcount, List.take_succ_cons, List.take_length_add_append]
    rfl
  · rw [partAround, List.drop_length_add_append, List.take_length_add_append, List.drop_succ_cons, List.drop_left,
      List.append_assoc]
    rfl

end Parts

section Exact

variable {K : Type} [LinearOrder K] {p v w : Point K}

/-! ## Edges across a latitude -/

/-- The edge goes from a vertex at or below a latitude to one above it. -/
def Rises (lat : K) (v w : Point K) : Prop := v.lat ≤ lat ∧ lat < w.lat

theorem Rises.lt {lat : K} (h : Rises lat v w) : v.lat < w.lat := h.1.trans_lt h.2

theorem Rises.ne {lat : K} (h : Rises lat v w) : v.lat ≠ w.lat := h.lt.ne

variable [Field K]

/-- The longitude at which the line through two vertices reaches a latitude. -/
def reach (v w : Point K) (lat : K) : K := (w.lng - v.lng) * (lat - v.lat) / (w.lat - v.lat) + v.lng

omit [LinearOrder K] in
theorem reach_comm (h : v.lat ≠ w.lat) (lat : K) : reach v w lat = reach w v lat := by
  have hvw : v.lat - w.lat ≠ 0 := sub_ne_zero.2 h
  have hwv : w.lat - v.lat ≠ 0 := sub_ne_zero.2 h.symm
  rw [reach, reach]
  field_simp
  ring

theorem crosses_iff :
    crosses p v w = true ↔ (Rises p.lat v w ∨ Rises p.lat w v) ∧ p.lng < reach v w p.lat := by
  rw [crosses, Bool.and_eq_true, decide_eq_true_iff, reach]
  refine and_congr_left fun _ => ?_
  by_cases hv : p.lat < v.lat <;> by_cases hw : p.lat < w.lat <;> simp [Rises, ← not_lt, hv, hw]

/-- An edge is crossed in whichever direction it is walked, also by a ray through one of its ends. -/
theorem crosses_comm (p v w : Point K) : crosses p v w = crosses p w v := by
  rw [Bool.eq_iff_iff, crosses_iff, crosses_iff, or_comm]
  refine and_congr_right fun h => ?_
  rcases h with h | h
  · rw [reach_comm h.ne.symm]
  · rw [reach_comm h.ne]

/-! ## Cutting -/

/-- The parts have the edges of the ring, and each of them has the cut. -/
theorem crossings_cut (p v w : Point K) (before between after : List (Point K)) :
    crossings p (edges (v :: (between ++ [w]))) + crossings p (edges (w :: (after ++ before ++ [v]))) =
      crossings p (edges (before ++ v :: (between ++ w :: after))) + 2 * (crosses p v w).toNat := by
  -- Read from behind the second end of the cut, so that the cut comes last.
  have hwhole : before ++ v :: (between ++ w :: after) ~r after ++ before ++ v :: (between ++ [w]) := by
    have hsplit : before ++ v :: (between ++ w :: after) = before ++ v :: (between ++ [w]) ++ after := by simp
    rw [hsplit, List.append_assoc after]
    exact List.isRotated_append
  have hring : edges (after ++ before ++ v :: (between ++ [w])) =
      trail w (after ++ before ++ [v]) ++ trail v (between ++ [w]) := by
    have hlast : after ++ before ++ v :: (between ++ [w]) = after ++ before ++ v :: between ++ [w] := by simp
    rw [hlast, edges_concat, ← hlast, trail_append]
  have hbetween : edges (v :: (between ++ [w])) = (v, w) :: trail v (between ++ [w]) :=
    edges_concat (v :: between) w
  have haround : edges (w :: (after ++ before ++ [v])) = (w, v) :: trail w (after ++ before ++ [v]) :=
    edges_concat (w :: (after ++ before)) v
  rw [crossings_isRotated hwhole, hring, hbetween, haround, crossings_append, crossings_cons, crossings_cons,
    crosses_comm p w v]
  omega

/-- **A cut neither loses nor doubles a point.** Where a ring is cut at two of its vertices into parts of at
least three vertices each, every point, also one on an edge or on the cut, is inside the ring exactly if it is
inside one of the parts and not inside the other. -/
theorem inside_cut (p : Point K) {ring : List (Point K)} {i j : Nat} (hij : i < j) (hj : j < ring.length)
    (hbetween : 3 ≤ (partBetween ring i j).length) (haround : 3 ≤ (partAround ring i j).length) :
    inside p ring = (inside p (partBetween ring i j) ^^ inside p (partAround ring i j)) := by
  obtain ⟨before, v, between, w, after, rfl, hb, ha⟩ := exists_cut hij hj
  rw [hb] at hbetween ⊢
  rw [ha] at haround ⊢
  have hring : 3 ≤ (before ++ v :: (between ++ w :: after)).length := by
    simp only [List.length_append, List.length_cons, List.length_nil] at hbetween ⊢
    omega
  have hodd := congrArg Nat.bodd (crossings_cut p v w before between after)
  rw [inside_eq hbetween, inside_eq haround, inside_eq hring, ← Nat.bodd_add, hodd, Nat.bodd_add, Nat.bodd_mul]
  simp

/-- A ring around a bay that is open to the north. -/
def bay : List (Point ℚ) := [⟨0, 0⟩, ⟨0, 3⟩, ⟨3, 3⟩, ⟨3, 2⟩, ⟨1, 2⟩, ⟨1, 1⟩, ⟨3, 1⟩, ⟨3, 0⟩]

/-- The point lies on the cut, in the middle between its ends. -/
theorem inside_cut_bay :
    partBetween bay 1 4 = [⟨0, 3⟩, ⟨3, 3⟩, ⟨3, 2⟩, ⟨1, 2⟩] ∧
      partAround bay 1 4 = [⟨1, 2⟩, ⟨1, 1⟩, ⟨3, 1⟩, ⟨3, 0⟩, ⟨0, 0⟩, ⟨0, 3⟩] ∧
      inside ⟨1 / 2, 5 / 2⟩ bay = true ∧
      (inside ⟨1 / 2, 5 / 2⟩ (partBetween bay 1 4) ^^ inside ⟨1 / 2, 5 / 2⟩ (partAround bay 1 4)) = true := by
  have hinside : inside ⟨1 / 2, 5 / 2⟩ bay = true := by decide +kernel
  have hcut := inside_cut (⟨1 / 2, 5 / 2⟩ : Point ℚ) (by decide : 1 < 4) (by decide : 4 < bay.length) (by decide)
    (by decide)
  exact ⟨rfl, rfl, hinside, hcut.symm.trans hinside⟩

end Exact

end FeedFiler.Polygon
