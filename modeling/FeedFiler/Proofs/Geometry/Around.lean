import Mathlib.Data.List.Perm.Subperm
import FeedFiler.Proofs.Geometry.Cutting

/-!
# Edges that lead around

The edges of a ring, walked in either direction, begin and end once at each vertex and hang together. So as many of
them rise across a latitude as fall, and some do if there are vertices on both sides of it.
-/

namespace FeedFiler.Polygon

/-! ## Beginnings and ends -/

section Around

variable {α : Type} {es : List (Point α × Point α)} {ring : List (Point α)} {u v w : Point α}

/-- The edges lead once around the vertices: each vertex begins one edge and ends one, and a property that no
edge changes is one of all vertices or of none. -/
structure LeadsAround (es : List (Point α × Point α)) (ring : List (Point α)) : Prop where
  distinct : ring.Nodup
  starts : (es.map Prod.fst).Perm ring
  ends : (es.map Prod.snd).Perm ring
  connected : ∀ mark : Point α → Bool, (∀ e ∈ es, mark e.1 = mark e.2) → ∀ u ∈ ring, ∀ v ∈ ring, mark u = mark v

theorem map_fst_trail (w : Point α) (path : List (Point α)) : (trail w path).map Prod.fst = path := by
  induction path generalizing w with
  | nil => rfl
  | cons v path ih => rw [trail, List.map_cons, ih]

theorem map_snd_trail (w v : Point α) (path : List (Point α)) :
    (trail w (path ++ [v])).map Prod.snd = w :: path := by
  induction path generalizing w with
  | nil => rfl
  | cons u path ih => rw [List.cons_append, trail, List.map_cons, ih]

theorem mark_eq_of_trail {mark : Point α → Bool} {path : List (Point α)}
    (h : ∀ e ∈ trail w path, mark e.1 = mark e.2) : ∀ v ∈ path, mark v = mark w := by
  induction path generalizing w with
  | nil => nofun
  | cons u path ih =>
      rw [trail, List.forall_mem_cons] at h
      refine List.forall_mem_cons.2 ⟨h.1, fun v hv => ?_⟩
      exact (ih h.2 v hv).trans h.1

theorem leadsAround_edges (h : ring.Nodup) : LeadsAround (edges ring) ring := by
  cases ring using List.reverseRecOn with
  | nil => exact ⟨h, .refl _, .refl _, fun _ _ _ hu => absurd hu List.not_mem_nil⟩
  | append_singleton path v =>
      rw [edges_concat]
      refine ⟨h, ?_, ?_, fun mark hmark u hu u' hu' => ?_⟩
      · rw [map_fst_trail]
      · rw [map_snd_trail]
        exact (List.perm_append_singleton v path).symm
      · exact (mark_eq_of_trail hmark u hu).trans (mark_eq_of_trail hmark u' hu').symm

namespace LeadsAround

variable (h : LeadsAround es ring)

include h

/-- The edges walked in the other direction lead around as well. -/
theorem swap : LeadsAround (es.map Prod.swap) ring where
  distinct := h.distinct
  starts := by rw [List.map_map]; exact h.ends
  ends := by rw [List.map_map]; exact h.starts
  connected mark hmark := h.connected mark fun e he => (hmark _ (List.mem_map_of_mem he)).symm

theorem start_mem {e : Point α × Point α} (he : e ∈ es) : e.1 ∈ ring := h.starts.mem_iff.1 (List.mem_map_of_mem he)

theorem end_mem {e : Point α × Point α} (he : e ∈ es) : e.2 ∈ ring := h.ends.mem_iff.1 (List.mem_map_of_mem he)

theorem exists_start (hu : u ∈ ring) : ∃ w, (u, w) ∈ es := by
  obtain ⟨⟨u, w⟩, he, rfl⟩ := List.mem_map.1 (h.starts.mem_iff.2 hu)
  exact ⟨w, he⟩

theorem exists_end (hu : u ∈ ring) : ∃ t, (t, u) ∈ es := by
  obtain ⟨⟨t, u⟩, he, rfl⟩ := List.mem_map.1 (h.ends.mem_iff.2 hu)
  exact ⟨t, he⟩

theorem eq_of_start {e f : Point α × Point α} (he : e ∈ es) (hf : f ∈ es) (hef : e.1 = f.1) : e = f :=
  List.inj_on_of_nodup_map (h.starts.nodup_iff.2 h.distinct) he hf hef

theorem eq_of_end {e f : Point α × Point α} (he : e ∈ es) (hf : f ∈ es) (hef : e.2 = f.2) : e = f :=
  List.inj_on_of_nodup_map (h.ends.nodup_iff.2 h.distinct) he hf hef

theorem nodup : es.Nodup := .of_map _ (h.starts.nodup_iff.2 h.distinct)

/-- With at least three vertices no two edges lead to and fro. -/
theorem neighbours_ne [DecidableEq α] (h3 : 3 ≤ ring.length) (hvw : (v, w) ∈ es) (huv : (u, v) ∈ es) : u ≠ w := by
  rintro rfl
  have hmark : ∀ e ∈ es, decide (e.1 ∈ [u, v]) = decide (e.2 ∈ [u, v]) := by
    intro e he
    rw [decide_eq_decide, List.mem_pair, List.mem_pair]
    constructor
    · rintro (hu | hv)
      · exact .inr (congrArg Prod.snd (h.eq_of_start he huv hu))
      · exact .inl (congrArg Prod.snd (h.eq_of_start he hvw hv))
    · rintro (hu | hv)
      · exact .inr (congrArg Prod.fst (h.eq_of_end he hvw hu))
      · exact .inl (congrArg Prod.fst (h.eq_of_end he huv hv))
  have hsub : ring ⊆ [u, v] := by
    intro x hx
    have hsame := h.connected (fun x => decide (x ∈ [u, v])) hmark x hx u (h.start_mem huv)
    simpa using hsame
  have hle : ring.length ≤ 2 := (List.subperm_of_subset h.distinct hsub).length_le
  omega

/-- A property that an edge shares with the next one is one of all edges or of none. -/
theorem edge_iff {P : Point α × Point α → Prop}
    (hstep : ∀ u v w, (v, w) ∈ es → (u, v) ∈ es → (P (v, w) ↔ P (u, v))) {e f : Point α × Point α} (he : e ∈ es)
    (hf : f ∈ es) : P e ↔ P f := by
  classical
  -- A vertex is marked if the edge that it begins has the property.
  let mark (u : Point α) : Bool := decide (∃ w, (u, w) ∈ es ∧ P (u, w))
  have hmark {u w : Point α} (huw : (u, w) ∈ es) : mark u = true ↔ P (u, w) := by
    rw [decide_eq_true_iff]
    constructor
    · rintro ⟨w', hw', hP⟩
      exact h.eq_of_start hw' huw rfl ▸ hP
    · exact fun hP => ⟨w, huw, hP⟩
  have hsame : ∀ e ∈ es, mark e.1 = mark e.2 := by
    rintro ⟨u, v⟩ huv
    obtain ⟨w, hvw⟩ := h.exists_start (h.end_mem huv)
    rw [Bool.eq_iff_iff, hmark huv, hmark hvw]
    exact (hstep u v w hvw huv).symm
  rw [← hmark he, ← hmark hf, h.connected mark hsame _ (h.start_mem he) _ (h.start_mem hf)]

end LeadsAround

end Around

/-! ## Edges across a latitude -/

/-- Of two properties that exclude each other either counts by itself. -/
theorem countP_eq_add {β : Type} {p q r : β → Bool} {bs : List β}
    (h : ∀ b ∈ bs, (r b).toNat = (p b).toNat + (q b).toNat) : bs.countP r = bs.countP p + bs.countP q := by
  induction bs with
  | nil => rfl
  | cons b bs ih =>
      rw [List.forall_mem_cons] at h
      rw [countP_cons_toNat, countP_cons_toNat, countP_cons_toNat, ih h.2, h.1]
      omega

section Across

variable {K : Type} [LinearOrder K] {es : List (Point K × Point K)} {ring : List (Point K)} {u v w : Point K} {lat : K}

instance (lat : K) (v w : Point K) : Decidable (Rises lat v w) := inferInstanceAs (Decidable (_ ∧ _))

/-- How many edges rise across a latitude. -/
def rising (lat : K) (es : List (Point K × Point K)) : Nat := es.countP fun e => Rises lat e.1 e.2

/-- How many edges fall across a latitude. -/
def falling (lat : K) (es : List (Point K × Point K)) : Nat := es.countP fun e => Rises lat e.2 e.1

theorem countP_straddling (lat : K) (es : List (Point K × Point K)) :
    (es.countP fun e => Rises lat e.1 e.2 ∨ Rises lat e.2 e.1) = rising lat es + falling lat es := by
  refine countP_eq_add fun e _ => ?_
  by_cases h1 : lat < e.1.lat <;> by_cases h2 : lat < e.2.lat <;> simp [Rises, ← not_lt, h1, h2]

/-- An edge with an end above a latitude begins there, or comes there by rising. -/
theorem starts_add_rising (lat : K) (es : List (Point K × Point K)) :
    (es.countP fun e => lat < e.1.lat ∨ lat < e.2.lat) =
      (es.map Prod.fst).countP (fun v => lat < v.lat) + rising lat es := by
  rw [List.countP_map]
  refine countP_eq_add fun e _ => ?_
  by_cases h1 : lat < e.1.lat <;> by_cases h2 : lat < e.2.lat <;> simp [Rises, ← not_lt, h1, h2]

/-- An edge with an end above a latitude ends there, or leaves by falling. -/
theorem ends_add_falling (lat : K) (es : List (Point K × Point K)) :
    (es.countP fun e => lat < e.1.lat ∨ lat < e.2.lat) =
      (es.map Prod.snd).countP (fun v => lat < v.lat) + falling lat es := by
  rw [List.countP_map]
  refine countP_eq_add fun e _ => ?_
  by_cases h1 : lat < e.1.lat <;> by_cases h2 : lat < e.2.lat <;> simp [Rises, ← not_lt, h1, h2]

namespace LeadsAround

variable (h : LeadsAround es ring)

include h

theorem rising_eq_falling (lat : K) : rising lat es = falling lat es := by
  have hflow := (starts_add_rising lat es).symm.trans (ends_add_falling lat es)
  rw [h.starts.countP_eq, h.ends.countP_eq] at hflow
  exact Nat.add_left_cancel hflow

theorem exists_rises_of_falls {e : Point K × Point K} (he : e ∈ es) (hf : Rises lat e.2 e.1) :
    ∃ r ∈ es, Rises lat r.1 r.2 := by
  have hpos : 0 < rising lat es := by
    rw [h.rising_eq_falling, falling, List.countP_pos_iff]
    exact ⟨e, he, decide_eq_true hf⟩
  obtain ⟨r, hr, hrise⟩ := List.countP_pos_iff.1 hpos
  exact ⟨r, hr, of_decide_eq_true hrise⟩

/-- Between a vertex at or below a latitude and one above it some edge rises. -/
theorem exists_rises (hu : u ∈ ring) (hlow : u.lat ≤ lat) (hv : v ∈ ring) (hhigh : lat < v.lat) :
    ∃ r ∈ es, Rises lat r.1 r.2 := by
  by_contra hno
  have hmark : ∀ e ∈ es, decide (lat < e.1.lat) = decide (lat < e.2.lat) := by
    intro e he
    rw [decide_eq_decide]
    constructor
    · intro h1
      by_contra h2
      exact hno (h.exists_rises_of_falls he ⟨not_lt.1 h2, h1⟩)
    · intro h2
      by_contra h1
      exact hno ⟨e, he, not_lt.1 h1, h2⟩
  have hsame := h.connected (fun v => decide (lat < v.lat)) hmark v hv u hu
  exact hlow.not_gt ((decide_eq_decide.1 hsame).1 hhigh)

end LeadsAround

end Across

end FeedFiler.Polygon
