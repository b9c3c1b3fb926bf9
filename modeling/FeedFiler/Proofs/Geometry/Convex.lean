import Mathlib.Algebra.Order.Field.Basic
import Mathlib.Data.Finset.Max
import Mathlib.Tactic.Linarith
import FeedFiler.Proofs.Geometry.Around

/-!
# Convex rings

With exact arithmetic a point is inside a strictly convex ring if it lies strictly on the inner side of every
edge, and not inside if it lies strictly on the outer side of one. The ring may turn either way and begin
anywhere. No division by zero is ever made, whatever the ring.

Across a latitude a convex ring has one edge that rises and one that falls, or none. A point on the inner side of
every edge has its latitude between those of the vertices, and its ray crosses one of the two. The ray from a
point beyond an edge crosses both or none: between them it would lie between two points of the ring.
-/

namespace FeedFiler.Polygon

/-! ## Sides of a line -/

section Side

variable {K : Type} [Field K] {a b p v w : Point K}

/-- Where a point lies beside the line from `v` to `w`: positive on its left, negative on its right, zero on the
line. -/
def side (v w p : Point K) : K := (w.lng - v.lng) * (p.lat - v.lat) - (w.lat - v.lat) * (p.lng - v.lng)

theorem side_swap (v w p : Point K) : side w v p = -side v w p := by
  simp only [side]
  ring

theorem side_cycle (v w p : Point K) : side w p v = side v w p := by
  simp only [side]
  ring

theorem side_start (v w : Point K) : side v w v = 0 := by
  simp only [side]
  ring

theorem side_end (v w : Point K) : side v w w = 0 := by
  simp only [side]
  ring

theorem side_level (hv : v.lat = w.lat) (hp : p.lat = w.lat) : side v w p = 0 := by
  rw [side, hv, hp, sub_self, mul_zero, zero_mul, sub_zero]

/-- At one latitude the side changes with the longitude only. -/
theorem side_eq_reach (h : v.lat ≠ w.lat) (p : Point K) :
    side v w p = (w.lat - v.lat) * (reach v w p.lat - p.lng) := by
  have hwv : w.lat - v.lat ≠ 0 := sub_ne_zero.2 h.symm
  rw [side, reach]
  field_simp
  ring

/-- The place where an edge reaches a latitude lies beside a line as its ends do, each weighed by how near it is. -/
theorem side_reach (h : v.lat ≠ w.lat) (a b : Point K) (lat : K) :
    (w.lat - v.lat) * side a b ⟨lat, reach v w lat⟩ =
      (w.lat - lat) * side a b v + (lat - v.lat) * side a b w := by
  have hwv : w.lat - v.lat ≠ 0 := sub_ne_zero.2 h.symm
  simp only [side, reach]
  field_simp
  ring

/-- Latitudes from the corner at a vertex `v` between its neighbours `w` and `u`. -/
theorem side_mul_lat (u v w p : Point K) :
    side w v u * (p.lat - v.lat) = side w v p * (u.lat - v.lat) + side v u p * (w.lat - v.lat) := by
  simp only [side]
  ring

variable [LinearOrder K] [IsStrictOrderedRing K] {lat : K}

theorem side_reach_nonneg (h : Rises lat v w) (hv : 0 ≤ side a b v) (hw : 0 ≤ side a b w) :
    0 ≤ side a b ⟨lat, reach v w lat⟩ := by
  have hpos : 0 < w.lat - v.lat := sub_pos.2 h.lt
  refine (mul_nonneg_iff_of_pos_left hpos).1 ?_
  rw [side_reach h.ne]
  exact add_nonneg (mul_nonneg (sub_nonneg.2 h.2.le) hv) (mul_nonneg (sub_nonneg.2 h.1) hw)

/-- The ray from a point to the left of an edge crosses the edge if it rises. -/
theorem crosses_iff_rises (h : 0 < side v w p) : crosses p v w = true ↔ Rises p.lat v w := by
  rw [crosses_iff]
  constructor
  · rintro ⟨hrise | hfall, hlt⟩
    · exact hrise
    · rw [side_eq_reach hfall.ne.symm] at h
      have hneg := mul_neg_of_neg_of_pos (sub_neg.2 hfall.lt) (sub_pos.2 hlt)
      exact absurd h hneg.not_gt
  · intro hrise
    rw [side_eq_reach hrise.ne] at h
    have hpos : 0 < w.lat - v.lat := sub_pos.2 hrise.lt
    exact ⟨.inl hrise, sub_pos.1 ((mul_pos_iff_of_pos_left hpos).1 h)⟩

/-- Between two places on or to the left of a line, at one latitude, all places are. -/
theorem side_nonneg_between {x y z : K} (hxy : x ≤ y) (hyz : y ≤ z) (hx : 0 ≤ side a b ⟨lat, x⟩)
    (hz : 0 ≤ side a b ⟨lat, z⟩) : 0 ≤ side a b ⟨lat, y⟩ := by
  simp only [side] at hx hz ⊢
  rcases le_total 0 (b.lat - a.lat) with hab | hab
  · have := mul_le_mul_of_nonneg_left hyz hab
    linarith
  · have := mul_le_mul_of_nonpos_left hxy hab
    linarith

end Side

/-! ## Edges with all vertices on their left -/

section Surrounding

variable {K : Type} [Field K] [LinearOrder K] {es : List (Point K × Point K)} {ring : List (Point K)}
variable {e f : Point K × Point K} {u p : Point K} {lat : K}

/-- All vertices but its ends lie strictly to the left of an edge. -/
def AllLeft (ring : List (Point K)) (e : Point K × Point K) : Prop :=
  ∀ u ∈ ring, u ≠ e.1 → u ≠ e.2 → 0 < side e.1 e.2 u

/-- All vertices but its ends lie strictly to the right of an edge. -/
def AllRight (ring : List (Point K)) (e : Point K × Point K) : Prop :=
  ∀ u ∈ ring, u ≠ e.1 → u ≠ e.2 → side e.1 e.2 u < 0

instance (ring : List (Point K)) (e : Point K × Point K) : Decidable (AllLeft ring e) :=
  inferInstanceAs (Decidable (∀ u ∈ ring, _))

instance (ring : List (Point K)) (e : Point K × Point K) : Decidable (AllRight ring e) :=
  inferInstanceAs (Decidable (∀ u ∈ ring, _))

theorem AllRight.swap [IsStrictOrderedRing K] (h : AllRight ring e) : AllLeft ring e.swap := by
  intro u hu h1 h2
  rw [Prod.fst_swap, Prod.snd_swap, side_swap]
  exact neg_pos.2 (h u hu h2 h1)

/-- Edges that lead around the vertices and have all of them on their left. -/
structure Surrounds (es : List (Point K × Point K)) (ring : List (Point K)) : Prop extends LeadsAround es ring where
  left : ∀ e ∈ es, AllLeft ring e

namespace Surrounds

variable (h : Surrounds es ring)

include h

theorem side_nonneg (he : e ∈ es) (hu : u ∈ ring) : 0 ≤ side e.1 e.2 u := by
  by_cases h1 : u = e.1
  · rw [h1, side_start]
  · by_cases h2 : u = e.2
    · rw [h2, side_end]
    · exact (h.left e he u hu h1 h2).le

variable [IsStrictOrderedRing K]

theorem side_nonneg_at_reach (he : e ∈ es) (hf : f ∈ es) (hs : Rises lat f.1 f.2 ∨ Rises lat f.2 f.1) :
    0 ≤ side e.1 e.2 ⟨lat, reach f.1 f.2 lat⟩ := by
  have hstart := h.side_nonneg he (h.start_mem hf)
  have hend := h.side_nonneg he (h.end_mem hf)
  rcases hs with hs | hs
  · exact side_reach_nonneg hs hstart hend
  · rw [reach_comm hs.ne.symm]
    exact side_reach_nonneg hs hend hstart

/-- No edge reaches a latitude farther than one that rises across it. -/
theorem reach_le (he : e ∈ es) (hr : Rises lat e.1 e.2) (hf : f ∈ es)
    (hs : Rises lat f.1 f.2 ∨ Rises lat f.2 f.1) : reach f.1 f.2 lat ≤ reach e.1 e.2 lat := by
  have hside := h.side_nonneg_at_reach he hf hs
  rw [side_eq_reach hr.ne] at hside
  have hpos : 0 < e.2.lat - e.1.lat := sub_pos.2 hr.lt
  exact sub_nonneg.1 ((mul_nonneg_iff_of_pos_left hpos).1 hside)

/-- One edge at most rises across a latitude. -/
theorem eq_of_rises (he : e ∈ es) (hf : f ∈ es) (hre : Rises lat e.1 e.2) (hrf : Rises lat f.1 f.2) : f = e := by
  have hsame : reach f.1 f.2 lat = reach e.1 e.2 lat :=
    (h.reach_le he hre hf (.inl hrf)).antisymm (h.reach_le hf hrf he (.inl hre))
  have hsum := side_reach hrf.ne e.1 e.2 lat
  rw [side_eq_reach hre.ne, hsame, sub_self, mul_zero, mul_zero] at hsum
  -- Where both reach the latitude `f` is on the line of `e`, and so is its start.
  have hstart : (f.2.lat - lat) * side e.1 e.2 f.1 = 0 := by
    have h1 := mul_nonneg (sub_nonneg.2 hrf.2.le) (h.side_nonneg he (h.start_mem hf))
    have h2 := mul_nonneg (sub_nonneg.2 hrf.1) (h.side_nonneg he (h.end_mem hf))
    linarith
  have hline : side e.1 e.2 f.1 = 0 := (mul_eq_zero.1 hstart).resolve_left (sub_pos.2 hrf.2).ne'
  have hne : f.1 ≠ e.2 := fun heq => (heq ▸ hrf.1).not_gt hre.2
  by_contra hfe
  have hne' : f.1 ≠ e.1 := fun heq => hfe (h.eq_of_start hf he heq)
  exact (h.left e he f.1 (h.start_mem hf) hne' hne).ne' hline

/-! ### Points to the left of every edge -/

section Left

variable (hp : ∀ e ∈ es, 0 < side e.1 e.2 p)

include hp

/-- A vertex with its two neighbours and the point make triangles that turn left. -/
theorem exists_corner (hu : u ∈ ring) :
    ∃ t ∈ ring, ∃ w ∈ ring, 0 < side t u w ∧ 0 < side t u p ∧ 0 < side u w p := by
  obtain ⟨t, ht⟩ := h.exists_end hu
  obtain ⟨w, hw⟩ := h.exists_start hu
  have htu : 0 < side t u p := hp (t, u) ht
  have huw : 0 < side u w p := hp (u, w) hw
  have hwt : w ≠ t := by
    rintro rfl
    rw [side_swap] at huw
    linarith
  have hwu : w ≠ u := by
    rintro rfl
    rw [← side_cycle, side_start] at huw
    exact huw.false
  exact ⟨t, h.start_mem ht, w, h.end_mem hw, h.left (t, u) ht w (h.end_mem hw) hwt hwu, htu, huw⟩

/-- The highest vertex is above the point: the corner there goes down on one side at least. -/
theorem exists_above (hne : ring ≠ []) : ∃ v ∈ ring, p.lat < v.lat := by
  classical
  obtain ⟨u, hu, hmax⟩ := ring.toFinset.exists_max_image Point.lat ((List.toFinset_nonempty_iff _).2 hne)
  rw [List.mem_toFinset] at hu
  obtain ⟨t, ht, w, hw, hd, ha, hb⟩ := h.exists_corner hp hu
  have htu : t.lat ≤ u.lat := hmax t (List.mem_toFinset.2 ht)
  have hwu : w.lat ≤ u.lat := hmax w (List.mem_toFinset.2 hw)
  have hsum : side t u p * (w.lat - u.lat) + side u w p * (t.lat - u.lat) < 0 := by
    have hdown : w.lat < u.lat ∨ t.lat < u.lat := by
      by_contra hlevel
      rw [not_or, not_lt, not_lt] at hlevel
      exact hd.ne' (side_level (htu.antisymm hlevel.2) (hwu.antisymm hlevel.1))
    rcases hdown with hdown | hdown
    · exact add_neg_of_neg_of_nonpos (mul_neg_of_pos_of_neg ha (sub_neg.2 hdown))
        (mul_nonpos_of_nonneg_of_nonpos hb.le (sub_nonpos.2 htu))
    · exact add_neg_of_nonpos_of_neg (mul_nonpos_of_nonneg_of_nonpos ha.le (sub_nonpos.2 hwu))
        (mul_neg_of_pos_of_neg hb (sub_neg.2 hdown))
  rw [← side_mul_lat] at hsum
  exact ⟨u, hu, sub_neg.1 (neg_of_mul_neg_right hsum hd.le)⟩

/-- The lowest vertex is not above the point. -/
theorem exists_below (hne : ring ≠ []) : ∃ v ∈ ring, v.lat ≤ p.lat := by
  classical
  obtain ⟨u, hu, hmin⟩ := ring.toFinset.exists_min_image Point.lat ((List.toFinset_nonempty_iff _).2 hne)
  rw [List.mem_toFinset] at hu
  obtain ⟨t, ht, w, hw, hd, ha, hb⟩ := h.exists_corner hp hu
  have htu : 0 ≤ t.lat - u.lat := sub_nonneg.2 (hmin t (List.mem_toFinset.2 ht))
  have hwu : 0 ≤ w.lat - u.lat := sub_nonneg.2 (hmin w (List.mem_toFinset.2 hw))
  have hsum := add_nonneg (mul_nonneg ha.le hwu) (mul_nonneg hb.le htu)
  rw [← side_mul_lat] at hsum
  exact ⟨u, hu, sub_nonneg.1 ((mul_nonneg_iff_of_pos_left hd).1 hsum)⟩

/-- The ray from a point to the left of every edge crosses the one edge that rises across its latitude. -/
theorem crossings_eq_one (hne : ring ≠ []) : crossings p es = 1 := by
  obtain ⟨u, hu, hlow⟩ := h.exists_below hp hne
  obtain ⟨v, hv, hhigh⟩ := h.exists_above hp hne
  obtain ⟨r, hr, hrise⟩ := h.exists_rises hu hlow hv hhigh
  classical
  rw [← List.count_eq_one_of_mem h.nodup hr, crossings, List.count]
  refine List.countP_congr fun e he => ?_
  rw [crosses_iff_rises (hp e he), beq_iff_eq]
  constructor
  · exact h.eq_of_rises hr he hrise
  · rintro rfl
    exact hrise

end Left

/-! ### Points to the right of an edge -/

/-- The ray from a point beyond an edge crosses both edges across its latitude or none. -/
theorem crosses_iff_crosses (he : e ∈ es) (hp : side e.1 e.2 p < 0) {r : Point K × Point K} (hr : r ∈ es)
    (hrise : Rises p.lat r.1 r.2) (hf : f ∈ es) (hfall : Rises p.lat f.2 f.1) :
    crosses p r.1 r.2 = true ↔ crosses p f.1 f.2 = true := by
  have hle := h.reach_le hr hrise hf (.inr hfall)
  rw [crosses_iff, crosses_iff, and_iff_right (.inl hrise), and_iff_right (.inr hfall)]
  refine ⟨fun hlt => lt_of_not_ge fun hge => ?_, fun hlt => hlt.trans_le hle⟩
  have hbetween := side_nonneg_between hge hlt.le (h.side_nonneg_at_reach he hf (.inr hfall))
    (h.side_nonneg_at_reach he hr (.inl hrise))
  exact absurd hbetween hp.not_ge

theorem bodd_crossings (he : e ∈ es) (hp : side e.1 e.2 p < 0) : (crossings p es).bodd = false := by
  by_cases hcross : ∃ r ∈ es, Rises p.lat r.1 r.2 ∧ crosses p r.1 r.2 = true
  · obtain ⟨r, hr, hrise, hc⟩ := hcross
    have hall : crossings p es = es.countP fun e => Rises p.lat e.1 e.2 ∨ Rises p.lat e.2 e.1 := by
      refine List.countP_congr fun f hf => ?_
      rw [decide_eq_true_iff]
      refine ⟨fun hcf => (crosses_iff.1 hcf).1, fun hs => ?_⟩
      rcases hs with hs | hs
      · exact h.eq_of_rises hr hf hrise hs ▸ hc
      · exact (h.crosses_iff_crosses he hp hr hrise hf hs).1 hc
    rw [hall, countP_straddling, h.rising_eq_falling, Nat.bodd_add, Bool.xor_self]
  · have hnone : crossings p es = 0 := by
      refine List.countP_eq_zero.2 fun f hf hcf => ?_
      rcases (crosses_iff.1 hcf).1 with hs | hs
      · exact hcross ⟨f, hf, hs, hcf⟩
      · obtain ⟨r, hr, hrise⟩ := h.exists_rises_of_falls hf hs
        exact hcross ⟨r, hr, hrise, (h.crosses_iff_crosses he hp hr hrise hf hs).2 hcf⟩
    rw [hnone, Nat.bodd_zero]

end Surrounds

end Surrounding

/-! ## Convex rings -/

section Convex

variable {K : Type} [Field K] [LinearOrder K] {es : List (Point K × Point K)} {ring : List (Point K)}
variable {e : Point K × Point K} {p : Point K}

/-- The vertices of a strictly convex polygon in their order, either way round: they are distinct, there are three
of them or more, and each edge has all others strictly on one side. -/
structure StrictlyConvex (ring : List (Point K)) : Prop where
  three_le : 3 ≤ ring.length
  distinct : ring.Nodup
  oneSided : ∀ e ∈ edges ring, AllLeft ring e ∨ AllRight ring e

/-- The point lies strictly on that side of the line of an edge where vertices of the ring lie. -/
def InnerSide (ring : List (Point K)) (e : Point K × Point K) (p : Point K) : Prop :=
  ∃ u ∈ ring, 0 < side e.1 e.2 u * side e.1 e.2 p

/-- The point and vertices of the ring lie strictly on different sides of the line of an edge. -/
def OuterSide (ring : List (Point K)) (e : Point K × Point K) (p : Point K) : Prop :=
  ∃ u ∈ ring, side e.1 e.2 u * side e.1 e.2 p < 0

instance (ring : List (Point K)) : Decidable (StrictlyConvex ring) :=
  decidable_of_iff (3 ≤ ring.length ∧ ring.Nodup ∧ ∀ e ∈ edges ring, AllLeft ring e ∨ AllRight ring e)
    ⟨fun ⟨h3, hd, hs⟩ => ⟨h3, hd, hs⟩, fun ⟨h3, hd, hs⟩ => ⟨h3, hd, hs⟩⟩

instance (ring : List (Point K)) (e : Point K × Point K) (p : Point K) : Decidable (InnerSide ring e p) :=
  inferInstanceAs (Decidable (∃ u ∈ ring, _))

instance (ring : List (Point K)) (e : Point K × Point K) (p : Point K) : Decidable (OuterSide ring e p) :=
  inferInstanceAs (Decidable (∃ u ∈ ring, _))

theorem InnerSide.swap (hi : InnerSide ring e p) : InnerSide ring e.swap p := by
  obtain ⟨u, hu, hpos⟩ := hi
  refine ⟨u, hu, ?_⟩
  rwa [Prod.fst_swap, Prod.snd_swap, side_swap e.1, side_swap e.1, neg_mul_neg]

theorem OuterSide.swap (ho : OuterSide ring e p) : OuterSide ring e.swap p := by
  obtain ⟨u, hu, hneg⟩ := ho
  refine ⟨u, hu, ?_⟩
  rwa [Prod.fst_swap, Prod.snd_swap, side_swap e.1, side_swap e.1, neg_mul_neg]

theorem crossings_swap (p : Point K) (es : List (Point K × Point K)) :
    crossings p (es.map Prod.swap) = crossings p es := by
  rw [crossings, List.countP_map]
  exact List.countP_congr fun e _ => by rw [Function.comp_apply, Prod.fst_swap, Prod.snd_swap, crosses_comm]

/-! ### One orientation -/

/-- From an edge to the next one the vertices stay on the same side. -/
theorem StrictlyConvex.allLeft_iff (h : StrictlyConvex ring) {u v w : Point K} (hvw : (v, w) ∈ edges ring)
    (huv : (u, v) ∈ edges ring) : AllLeft ring (v, w) ↔ AllLeft ring (u, v) := by
  have haround := leadsAround_edges h.distinct
  have huw : u ≠ w := haround.neighbours_ne h.three_le hvw huv
  have hvu : u ≠ v := by
    rintro rfl
    exact huw (congrArg Prod.snd (haround.eq_of_start huv hvw rfl))
  have hwv : w ≠ v := by
    rintro rfl
    exact huw (congrArg Prod.fst (haround.eq_of_end huv hvw rfl))
  have hturn : side v w u = side u v w := side_cycle u v w
  have hu : u ∈ ring := haround.start_mem huv
  have hw : w ∈ ring := haround.end_mem hvw
  constructor
  · refine fun hall => (h.oneSided _ huv).resolve_right fun hright => ?_
    exact (hright w hw huw.symm hwv).not_gt (hturn ▸ hall u hu hvu huw)
  · refine fun hall => (h.oneSided _ hvw).resolve_right fun hright => ?_
    exact (hright u hu hvu huw).not_gt (hturn ▸ hall w hw huw.symm hwv)

variable [IsStrictOrderedRing K]

/-- The edges of a strictly convex ring have all vertices on their left, in one direction or in the other. -/
theorem StrictlyConvex.surrounds (h : StrictlyConvex ring) :
    Surrounds (edges ring) ring ∨ Surrounds ((edges ring).map Prod.swap) ring := by
  have haround := leadsAround_edges h.distinct
  by_cases hall : ∀ e ∈ edges ring, AllLeft ring e
  · exact .inl ⟨haround, hall⟩
  · push Not at hall
    obtain ⟨f, hf, hno⟩ := hall
    refine .inr ⟨haround.swap, List.forall_mem_map.2 fun e he => AllRight.swap ?_⟩
    have hsame := haround.edge_iff (fun u v w hvw huv => h.allLeft_iff hvw huv) he hf
    exact (h.oneSided e he).resolve_left fun hleft => hno (hsame.1 hleft)

/-! ### Inside and outside -/

theorem Surrounds.bodd_of_inner (h : Surrounds es ring) (hne : ring ≠ []) (hi : ∀ e ∈ es, InnerSide ring e p) :
    (crossings p es).bodd = true := by
  have hleft : ∀ e ∈ es, 0 < side e.1 e.2 p := by
    intro e he
    obtain ⟨u, hu, hpos⟩ := hi e he
    exact pos_of_mul_pos_right hpos (h.side_nonneg he hu)
  rw [h.crossings_eq_one hleft hne, Nat.bodd_one]

theorem Surrounds.bodd_of_outer (h : Surrounds es ring) (he : e ∈ es) (ho : OuterSide ring e p) :
    (crossings p es).bodd = false := by
  obtain ⟨u, hu, hneg⟩ := ho
  exact h.bodd_crossings he (neg_of_mul_neg_right hneg (h.side_nonneg he hu))

theorem StrictlyConvex.inside_of_inner (h : StrictlyConvex ring) (hi : ∀ e ∈ edges ring, InnerSide ring e p) :
    inside p ring = true := by
  have hne : ring ≠ [] := List.ne_nil_of_length_pos (Nat.lt_of_lt_of_le (by decide) h.three_le)
  rw [inside_eq h.three_le]
  rcases h.surrounds with hs | hs
  · exact hs.bodd_of_inner hne hi
  · rw [← crossings_swap]
    exact hs.bodd_of_inner hne (List.forall_mem_map.2 fun e he => (hi e he).swap)

theorem StrictlyConvex.not_inside_of_outer (h : StrictlyConvex ring) (he : e ∈ edges ring)
    (ho : OuterSide ring e p) : inside p ring = false := by
  rw [inside_eq h.three_le]
  rcases h.surrounds with hs | hs
  · exact hs.bodd_of_outer he ho
  · rw [← crossings_swap]
    exact hs.bodd_of_outer (List.mem_map_of_mem he) ho.swap

end Convex

/-! ## No division by zero -/

section Division

variable {K : Type} [Field K] [LinearOrder K]

/-- A quotient, unless the divisor is zero. -/
def quotient? (a b : K) : Option K := if b = 0 then none else some (a / b)

/-- `crosses` with a division that fails if the divisor is zero. -/
def crosses? (p v w : Point K) : Option Bool :=
  if decide (p.lat < v.lat) != decide (p.lat < w.lat) then
    (quotient? ((w.lng - v.lng) * (p.lat - v.lat)) (w.lat - v.lat)).map fun x => decide (p.lng < x + v.lng)
  else some false

/-- `inside` with a division that fails if the divisor is zero. -/
def inside? (p : Point K) (ring : List (Point K)) : Option Bool :=
  if 3 ≤ ring.length then
    (edges ring).foldlM (fun odd (v, w) => (crosses? p v w).map fun crossed => odd ^^ crossed) false
  else some false

/-- An edge is only looked at closer if its ends have different latitudes. -/
theorem crosses?_eq (p v w : Point K) : crosses? p v w = some (crosses p v w) := by
  rw [crosses?, crosses]
  split
  · next hs =>
      have hne : w.lat - v.lat ≠ 0 := by
        intro hzero
        rw [sub_eq_zero.1 hzero, bne_self_eq_false] at hs
        cases hs
      rw [hs, quotient?, if_neg hne, Option.map_some, Bool.true_and]
  · next hs => rw [Bool.not_eq_true] at hs; rw [hs, Bool.false_and]

theorem inside?_eq (p : Point K) (ring : List (Point K)) : inside? p ring = some (inside p ring) := by
  have hfold (es : List (Point K × Point K)) (odd : Bool) :
      es.foldlM (fun odd (v, w) => (crosses? p v w).map fun crossed => odd ^^ crossed) odd =
        some (es.foldl (fun odd (v, w) => odd ^^ crosses p v w) odd) := by
    induction es generalizing odd with
    | nil => rfl
    | cons e es ih =>
        obtain ⟨v, w⟩ := e
        rw [List.foldlM_cons, List.foldl_cons, ← ih]
        dsimp only
        rw [crosses?_eq]
        rfl
  rw [inside?, inside]
  split
  · next h3 => rw [hfold, decide_eq_true h3, Bool.true_and]
  · next h3 => rw [decide_eq_false h3, Bool.false_and]

end Division

/-- **Inside is what it is in a convex polygon.** A point strictly on the inner side of every edge of a strictly
convex ring is inside, one strictly on the outer side of some edge is not, whichever way round the ring goes and
wherever it begins. The answer never takes a division by zero. -/
theorem inside_convex {K : Type} [Field K] [LinearOrder K] [IsStrictOrderedRing K] {ring : List (Point K)}
    (h : StrictlyConvex ring) (p : Point K) :
    ((∀ e ∈ edges ring, InnerSide ring e p) → inside p ring = true) ∧
      ((∃ e ∈ edges ring, OuterSide ring e p) → inside p ring = false) ∧
      inside? p ring = some (inside p ring) :=
  ⟨h.inside_of_inner, fun ⟨_, he, ho⟩ => h.not_inside_of_outer he ho, inside?_eq p ring⟩

/-- A ring with two edges along a latitude and two vertices on the latitude between them. -/
def hexagon : List (Point ℚ) := [⟨0, 2⟩, ⟨1, 1⟩, ⟨1, -1⟩, ⟨0, -2⟩, ⟨-1, -1⟩, ⟨-1, 1⟩]

/-- The rays meet vertices, and one of them an edge all along. -/
theorem inside_convex_hexagon :
    StrictlyConvex hexagon ∧ StrictlyConvex hexagon.reverse ∧ inside ⟨0, 0⟩ hexagon = true ∧
      inside ⟨0, -3⟩ hexagon = false ∧ inside ⟨0, 0⟩ hexagon.reverse = true ∧
      inside ⟨-1, -3⟩ hexagon.reverse = false ∧ inside? ⟨-1, -3⟩ hexagon.reverse = some false := by
  have hone : StrictlyConvex hexagon := by decide +kernel
  have hother : StrictlyConvex hexagon.reverse := by decide +kernel
  obtain ⟨-, houtside, hdivision⟩ := inside_convex hother ⟨-1, -3⟩
  have hfalse := houtside (by decide +kernel)
  exact ⟨hone, hother, (inside_convex hone ⟨0, 0⟩).1 (by decide +kernel),
    (inside_convex hone ⟨0, -3⟩).2.1 (by decide +kernel), (inside_convex hother ⟨0, 0⟩).1 (by decide +kernel),
    hfalse, hdivision.trans (congrArg some hfalse)⟩

end FeedFiler.Polygon
