import FeedFiler.Bus
import FeedFiler.Proofs.Router.Publishing

/-!
# How a bus is wired

When a bus starts, each filer gets the next number and an open channel of its own, and its address leads
to that number.
-/

namespace FeedFiler.Bus

open RoutingBuilder

def routesOf (filers : List Filer) : List (String × Address) :=
  filers.map fun f => (f.rule.name, f.rule.source)

/-- Each address leads to the numbers of its filers, and each number to the channel of its filer. -/
structure Wired (filers : List Filer) (r : Router) : Prop where
  le : filers.length ≤ RouteId.count
  route : ∀ a, r.table.route a = subscribers (routesOf filers) a
  handles : ∀ (i : Nat) f, filers[i]? = some f → r.handles[RouteId.ofNat i]? = some ⟨f.rule.name, i⟩

variable {filers : List Filer} {f : Filer} {r : Router} {a : Address} {i : Nat} {id : RouteId}

theorem ofNat_inj_of_getElem? (hl : filers.length ≤ RouteId.count) {j : Nat} {g : Filer}
    (hi : filers[i]? = some f) (hj : filers[j]? = some g) : RouteId.ofNat i = .ofNat j ↔ i = j :=
  RouteId.ofNat_inj (Nat.lt_of_lt_of_le (List.getElem?_eq_some_iff.1 hi).1 hl)
    (Nat.lt_of_lt_of_le (List.getElem?_eq_some_iff.1 hj).1 hl)

theorem mem_route (h : Wired filers r) :
    id ∈ r.table.route a ↔ ∃ (i : Nat) (f : Filer), filers[i]? = some f ∧ f.rule.source = a ∧ id = .ofNat i := by
  rw [h.route, mem_subscribers]
  simp only [routesOf, List.getElem?_map, Option.map_eq_some_iff, Prod.mk.injEq]
  constructor
  · rintro ⟨i, name, ⟨f, hf, -, hs⟩, he⟩
    exact ⟨i, f, hf, hs, he⟩
  · rintro ⟨i, f, hf, hs, he⟩
    exact ⟨i, f.rule.name, ⟨f, hf, rfl, hs⟩, he⟩

theorem ofNat_mem_route (h : Wired filers r) (hi : filers[i]? = some f) :
    .ofNat i ∈ r.table.route a ↔ f.rule.source = a := by
  rw [mem_route h]
  constructor
  · rintro ⟨j, g, hj, hs, he⟩
    cases (ofNat_inj_of_getElem? h.le hi hj).1 he
    rw [hi] at hj
    cases hj
    exact hs
  · intro hs
    exact ⟨i, f, hi, hs, rfl⟩

theorem nodup_route (h : Wired filers r) (a : Address) : (r.table.route a).Nodup := by
  rw [h.route]
  refine nodup_subscribers ?_ a
  rw [routesOf, List.length_map]
  exact h.le

/-! ## Channels -/

variable {r' : Router} {c : Channel} {e : Envelope}

theorem Wired.of_eq (h : Wired filers r) (ht : r'.table = r.table) (hh : r'.handles = r.handles) :
    Wired filers r' := by
  refine ⟨h.le, fun a => ?_, fun i f hi => ?_⟩
  · rw [ht]
    exact h.route a
  · rw [hh]
    exact h.handles i f hi

theorem Wired.offer (h : Wired filers r) (hi : filers[i]? = some f) (hc : r.channels[i]? = some c)
    (ho : c.closed = false) (e : Envelope) :
    r.offer e (.ofNat i) = if c.free = 0 then (.full, r) else
      (.sent, { r with channels := r.channels.set i { c with queue := c.queue ++ [e] } }) := by
  simp only [Router.offer, h.handles i f hi, hc, Channel.send, ho, Bool.false_eq_true, if_false]
  by_cases hf : c.free = 0
  · rw [if_pos hf, if_pos hf]
  · rw [if_neg hf, if_neg hf]

/-! ## Starting -/

/-- The filers have been registered with a router without handles and channels. -/
structure Registered (filers : List Filer) (capacity : Nat) (r : Router) : Prop where
  channels : r.channels = List.replicate filers.length { capacity }
  handles : ∀ (i : Nat) f, filers[i]? = some f → r.handles[RouteId.ofNat i]? = some ⟨f.rule.name, i⟩

theorem Registered.register {capacity : Nat} (h : Registered filers capacity r)
    (hl : filers.length < RouteId.count) (f : Filer) :
    Registered (filers ++ [f]) capacity (r.register (.ofNat filers.length) f.rule.name capacity) := by
  have hlen : r.channels.length = filers.length := by rw [h.channels, List.length_replicate]
  constructor
  · rw [Router.register, h.channels, List.length_append, List.length_singleton, List.replicate_succ']
  · intro i g hi
    rw [Router.register, Std.ExtTreeMap.getElem?_insert, hlen]
    simp only [Std.LawfulEqOrd.compare_eq_iff_eq]
    rw [List.getElem?_append] at hi
    split at hi
    · next hlt =>
        rw [if_neg, h.handles i g hi]
        rw [RouteId.ofNat_inj hl (Nat.lt_trans hlt hl)]
        omega
    · next hge =>
        have hlt := (List.getElem?_eq_some_iff.1 hi).1
        rw [List.length_singleton] at hlt
        have he : i = filers.length := by omega
        subst he
        rw [Nat.sub_self] at hi
        cases hi
        rw [if_pos rfl]

theorem registerAll_concat (r : Router) (capacity : Nat) (filers : List (RouteId × Filer)) (id : RouteId)
    (f : Filer) : registerAll r capacity (filers ++ [(id, f)]) =
      (registerAll r capacity filers).register id f.rule.name capacity := by
  rw [registerAll, registerAll, List.foldl_append]
  rfl

theorem registered_registerAll (capacity : Nat) (table : RoutingTable) (filers : List Filer)
    (hl : filers.length ≤ RouteId.count) :
    Registered filers capacity (registerAll { table } capacity
      (((List.range' 0 filers.length).map RouteId.ofNat).zip filers)) := by
  induction filers using List.reverseRecOn with
  | nil => exact ⟨rfl, fun i f hi => nomatch hi⟩
  | append_singleton filers f ih =>
      rw [List.length_append, List.length_singleton] at hl
      have hz : ((List.range' 0 (filers ++ [f]).length).map RouteId.ofNat).zip (filers ++ [f]) =
          ((List.range' 0 filers.length).map RouteId.ofNat).zip filers ++ [(.ofNat filers.length, f)] := by
        rw [List.length_append, List.length_singleton, List.range'_concat, List.map_append, List.zip_append]
        · simp
        · simp
      rw [hz, registerAll_concat]
      exact (ih (by omega)).register (by omega) f

theorem table_registerAll (r : Router) (capacity : Nat) (filers : List (RouteId × Filer)) :
    (registerAll r capacity filers).table = r.table := by
  induction filers using List.reverseRecOn with
  | nil => rfl
  | append_singleton filers f ih =>
      rw [registerAll_concat]
      exact ih

/-- **A bus that has started is wired, and its channels are open and empty.** -/
theorem wired_of_start {queueSize : Nat} {t : FileTree} {b : Bus} (h : start filers queueSize t = .ok b) :
    b.filers = filers ∧ b.files = t ∧ Wired filers b.router ∧
      b.router.channels = List.replicate filers.length { capacity := max queueSize 1 } := by
  rw [start] at h
  cases ha : addAll {} (filers.map fun f => (f.rule.name, f.rule.source)) with
  | error cause =>
      rw [ha] at h
      cases h
  | ok result =>
      obtain ⟨ids, builder⟩ := result
      rw [ha] at h
      obtain ⟨rfl, hl⟩ := lists_empty.addAll ha
      have hle := hl.le
      rw [List.nil_append, List.length_map] at hle
      have hreg := registered_registerAll (max queueSize 1) builder.table filers hle
      simp only [Except.mapError, bind, Except.bind] at h
      split at h
      · cases h
      · cases h
        simp only [List.length_nil, List.length_map]
        refine ⟨trivial, trivial, ⟨hle, fun a => ?_, hreg.handles⟩, hreg.channels⟩
        rw [table_registerAll]
        exact hl.route a

end FeedFiler.Bus
