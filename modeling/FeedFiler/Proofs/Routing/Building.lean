import Mathlib.Data.List.Induction
import Mathlib.Data.List.Nodup
import FeedFiler.Routing.Builder

/-!
# Routes that were added

The routes that a builder accepted have the numbers from 0 on, in their order, and each address lists
those that subscribed to it, in the same order.
-/

namespace FeedFiler

theorem RouteId.ofNat_inj {n m : Nat} (hn : n < count) (hm : m < count) : ofNat n = ofNat m ↔ n = m := by
  constructor
  · intro h
    have hi := congrArg (fun id => id.index.toNat) h
    rw [count] at hn hm
    simpa [ofNat, Nat.mod_eq_of_lt hn, Nat.mod_eq_of_lt hm] using hi
  · rintro rfl
    rfl

namespace RoutingTable

theorem route_subscribe (t : RoutingTable) (address a : Address) (id : RouteId) :
    (t.subscribe address id).route a =
      if a = address then if (t.route a).contains id then t.route a else t.route a ++ [id] else t.route a := by
  rw [route, subscribe, Std.ExtTreeMap.getElem?_insert]
  simp only [Std.LawfulEqOrd.compare_eq_iff_eq]
  by_cases h : a = address
  · rw [if_pos h.symm, if_pos h, h]
    rfl
  · rw [if_neg (Ne.symm h), if_neg h]
    rfl

end RoutingTable

namespace RoutingBuilder

/-- The numbers of the routes with an address. -/
def subscribers (routes : List (String × Address)) (a : Address) : List RouteId :=
  (routes.zipIdx.filter fun route => route.1.2 = a).map fun route => .ofNat route.2

/-- The builder has accepted these routes. -/
structure Lists (b : RoutingBuilder) (routes : List (String × Address)) : Prop where
  count : b.table.routeCount = routes.length
  le : routes.length ≤ RouteId.count
  route : ∀ a, b.table.route a = subscribers routes a

variable {b b' : RoutingBuilder} {routes more : List (String × Address)} {name : String}
  {address a : Address} {id : RouteId} {ids : List RouteId}

theorem lists_empty : Lists {} [] := ⟨rfl, Nat.zero_le _, fun _ => by simp [RoutingTable.route, subscribers]⟩

theorem mem_subscribers :
    id ∈ subscribers routes a ↔ ∃ (n : Nat) (name : String), routes[n]? = some (name, a) ∧ id = .ofNat n := by
  simp only [subscribers, List.mem_map, List.mem_filter, List.mem_zipIdx_iff_getElem?, decide_eq_true_eq]
  constructor
  · rintro ⟨⟨⟨name, a'⟩, n⟩, ⟨hn, rfl⟩, rfl⟩
    exact ⟨n, name, hn, rfl⟩
  · rintro ⟨n, name, hn, rfl⟩
    exact ⟨((name, a), n), ⟨hn, rfl⟩, rfl⟩

theorem subscribers_concat (routes : List (String × Address)) (name : String) (address a : Address) :
    subscribers (routes ++ [(name, address)]) a =
      subscribers routes a ++ if address = a then [.ofNat routes.length] else [] := by
  simp only [subscribers, List.zipIdx_append, List.filter_append, List.map_append]
  by_cases h : address = a
  · simp [h]
  · simp [h]

theorem notMem_subscribers (h : routes.length < RouteId.count) (a : Address) :
    .ofNat routes.length ∉ subscribers routes a := by
  intro hm
  obtain ⟨n, name, hn, he⟩ := mem_subscribers.1 hm
  have hlt := (List.getElem?_eq_some_iff.1 hn).1
  rw [RouteId.ofNat_inj h (Nat.lt_trans hlt h)] at he
  omega

theorem nodup_subscribers (h : routes.length ≤ RouteId.count) (a : Address) :
    (subscribers routes a).Nodup := by
  induction routes using List.reverseRecOn with
  | nil => exact List.nodup_nil
  | append_singleton routes route ih =>
      rw [List.length_append, List.length_singleton] at h
      rw [subscribers_concat]
      split
      · refine List.Nodup.append (ih (by omega)) (List.nodup_singleton _) ?_
        rw [List.disjoint_singleton]
        exact notMem_subscribers (by omega) a
      · rw [List.append_nil]
        exact ih (by omega)

theorem Lists.add (h : b.Lists routes) (ha : b.add name address = (.ok id, b')) :
    id = .ofNat routes.length ∧ b'.Lists (routes ++ [(name, address)]) := by
  rw [RoutingBuilder.add] at ha
  split at ha
  · cases ha
  · split at ha
    · cases ha
    · split at ha
      · cases ha
      · next hc =>
          rw [h.count, Nat.not_le] at hc
          cases ha
          have hsize : b.table.names.size = routes.length := h.count
          refine ⟨by rw [← hsize], ?_, ?_, fun a => ?_⟩
          · simp [RoutingTable.routeCount, RoutingTable.subscribe, hsize]
          · rw [List.length_append, List.length_singleton]
            exact hc
          · have hr : RoutingTable.route ⟨b.table.names.push name, b.table.subscriptions⟩ a =
                subscribers routes a := h.route a
            rw [RoutingTable.route_subscribe, hr, hsize, subscribers_concat]
            by_cases he : a = address
            · rw [if_pos he, if_neg, if_pos he.symm]
              rw [List.contains_iff_mem]
              exact notMem_subscribers hc a
            · rw [if_neg he, if_neg (Ne.symm he), List.append_nil]

/-- **The numbers and the subscribers of routes that were all accepted.** -/
theorem Lists.addAll (h : b.Lists routes) (ha : b.addAll more = .ok (ids, b')) :
    ids = (List.range' routes.length more.length).map RouteId.ofNat ∧ b'.Lists (routes ++ more) := by
  induction more generalizing b routes ids with
  | nil =>
      cases ha
      exact ⟨rfl, by rwa [List.append_nil]⟩
  | cons route more ih =>
      obtain ⟨name, address⟩ := route
      rw [RoutingBuilder.addAll] at ha
      cases hadd : b.add name address with
      | mk result b₁ =>
          rw [hadd] at ha
          cases result with
          | error cause => cases ha
          | ok id =>
              obtain ⟨rfl, hl⟩ := h.add hadd
              cases hrest : b₁.addAll more with
              | error cause =>
                  simp only [hrest] at ha
                  cases ha
              | ok rest =>
                  simp only [hrest] at ha
                  cases ha
                  obtain ⟨hids, hl'⟩ := ih hl hrest
                  rw [List.append_assoc] at hl'
                  refine ⟨?_, hl'⟩
                  rw [hids, List.length_append, List.length_singleton]
                  rfl

end RoutingBuilder

end FeedFiler
