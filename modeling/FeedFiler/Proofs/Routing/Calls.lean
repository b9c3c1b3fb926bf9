import Mathlib.Data.Finset.Card
import Mathlib.Data.List.Induction
import FeedFiler.Proofs.Routing.Accepting

/-!
# Calls on a routing table

A table may be asked to register any names and to subscribe any routes to any addresses, in any order. An
address lists the routes that were subscribed to it, each of them once, in the order in which they first
were. The names get the numbers from 0 on, which start again behind the last number of 16 bits.
-/

namespace FeedFiler

theorem RouteId.toNat_ofNat_eq_mod (n : Nat) : (ofNat n).index.toNat = n % count := by
  simp [ofNat, count]

namespace RoutingTable

/-- A call that changes a table. -/
inductive Call where
  | register (name : String)
  | subscribe (address : Address) (id : RouteId)

/-- The name that a call registers. -/
def Call.name? : Call → Option String
  | .register name => some name
  | .subscribe .. => none

/-- The address and the route of a subscription. -/
def Call.subscription? : Call → Option (Address × RouteId)
  | .register _ => none
  | .subscribe address id => some (address, id)

/-- The table after one more call. -/
def step (t : RoutingTable) : Call → RoutingTable
  | .register name => (t.register name).2
  | .subscribe address id => t.subscribe address id

/-- The table that some calls make. -/
def run (calls : List Call) : RoutingTable := calls.foldl step {}

/-- The number that a call returns. -/
def answer? (t : RoutingTable) : Call → Option RouteId
  | .register name => some (t.register name).1
  | .subscribe .. => none

/-- The numbers that some calls return, one after the other. -/
def answers (t : RoutingTable) : List Call → List RouteId
  | [] => []
  | call :: calls => (t.answer? call).toList ++ (t.step call).answers calls

/-! ## What the calls ask for -/

/-- The names in the order of their registration. -/
def registered (calls : List Call) : List String := calls.filterMap Call.name?

/-- The subscriptions with their addresses, in their order. -/
def subscribed (calls : List Call) : List (Address × RouteId) := calls.filterMap Call.subscription?

/-- The routes that are subscribed to an address, as often as they are, in the order of the calls. -/
def subscribedTo (calls : List Call) (address : Address) : List RouteId :=
  ((subscribed calls).filter (·.1 = address)).map Prod.snd

/-- The first subscription of one route comes before that of another one. -/
def Earlier (ids : List RouteId) (id next : RouteId) : Prop := ids.idxOf id < ids.idxOf next

variable {t : RoutingTable} {calls : List Call} {a : Address} {id : RouteId} {ids listed : List RouteId}

theorem mem_subscribedTo : id ∈ subscribedTo calls a ↔ (a, id) ∈ subscribed calls := by
  simp [subscribedTo]

theorem subscribed_concat (calls : List Call) (call : Call) :
    subscribed (calls ++ [call]) = subscribed calls ++ call.subscription?.toList := by
  rw [subscribed, List.filterMap_append]
  cases call <;> rfl

theorem registered_append (calls more : List Call) :
    registered (calls ++ more) = registered calls ++ registered more := List.filterMap_append

theorem registered_concat (calls : List Call) (call : Call) :
    registered (calls ++ [call]) = registered calls ++ call.name?.toList := by
  rw [registered_append]
  cases call <;> rfl

theorem run_concat (calls : List Call) (call : Call) : run (calls ++ [call]) = (run calls).step call := by
  rw [run, List.foldl_append]
  rfl

theorem subscribedTo_concat (calls : List Call) (address : Address) (id : RouteId) (a : Address) :
    subscribedTo (calls ++ [.subscribe address id]) a =
      subscribedTo calls a ++ if a = address then [id] else [] := by
  rw [subscribedTo, subscribed_concat, List.filter_append, List.map_append, subscribedTo]
  by_cases h : a = address
  · simp [Call.subscription?, h]
  · simp [Call.subscription?, h, Ne.symm h]

/-! ## The order of first subscriptions -/

/-- Later subscriptions do not change the order. -/
theorem pairwise_earlier_append (h : listed.Pairwise (Earlier ids))
    (hm : ∀ id ∈ listed, id ∈ ids) (others : List RouteId) : listed.Pairwise (Earlier (ids ++ others)) := by
  refine h.imp_of_mem fun {id next} hid hnext hlt => ?_
  rw [Earlier, List.idxOf_append_of_mem (hm id hid), List.idxOf_append_of_mem (hm next hnext)]
  exact hlt

/-- A route that is subscribed for the first time comes last. -/
theorem earlier_of_notMem (hid : id ∈ ids) {new : RouteId} (hnew : new ∉ ids) :
    Earlier (ids ++ [new]) id new := by
  rw [Earlier, List.idxOf_append_of_mem hid, List.idxOf_append_of_notMem hnew]
  exact Nat.lt_add_right _ (List.idxOf_lt_length_of_mem hid)

theorem nodup_of_pairwise_earlier (h : listed.Pairwise (Earlier ids)) : listed.Nodup := by
  refine h.imp fun {id next} hlt he => ?_
  rw [Earlier, he] at hlt
  exact Nat.lt_irrefl _ hlt

/-! ## What a table holds -/

/-- The table holds what these calls ask for. -/
structure Follows (t : RoutingTable) (calls : List Call) : Prop where
  names : t.names.toList = registered calls
  mem_route : ∀ a id, id ∈ t.route a ↔ id ∈ subscribedTo calls a
  ordered : ∀ a, (t.route a).Pairwise (Earlier (subscribedTo calls a))
  mem_subscriptions : ∀ a, a ∈ t.subscriptions ↔ a ∈ (subscribed calls).map Prod.fst
  addressCount : t.addressCount = ((subscribed calls).map Prod.fst).toFinset.card

theorem follows_empty : Follows {} [] where
  names := rfl
  mem_route a id := by simp [route, subscribedTo, subscribed]
  ordered a := by simp [route]
  mem_subscriptions a := by simp [subscribed]
  addressCount := by simp [RoutingTable.addressCount, subscribed]

namespace Follows

theorem register (h : t.Follows calls) (name : String) :
    (t.register name).2.Follows (calls ++ [.register name]) := by
  have hs : subscribed (calls ++ [.register name]) = subscribed calls := by
    rw [subscribed_concat, Call.subscription?, Option.toList_none, List.append_nil]
  have hto (a : Address) : subscribedTo (calls ++ [.register name]) a = subscribedTo calls a := by
    rw [subscribedTo, hs, subscribedTo]
  refine ⟨?_, fun a id => ?_, fun a => ?_, fun a => ?_, ?_⟩
  · rw [registered_concat, ← h.names]
    exact Array.toList_push
  · rw [hto]
    exact h.mem_route a id
  · rw [hto]
    exact h.ordered a
  · rw [hs]
    exact h.mem_subscriptions a
  · rw [hs]
    exact h.addressCount

theorem subscribe (h : t.Follows calls) (address : Address) (id : RouteId) :
    (t.subscribe address id).Follows (calls ++ [.subscribe address id]) := by
  have hs : (subscribed (calls ++ [.subscribe address id])).map Prod.fst =
      (subscribed calls).map Prod.fst ++ [address] := by
    rw [subscribed_concat, List.map_append]
    rfl
  refine ⟨?_, fun a next => ?_, fun a => ?_, fun a => ?_, ?_⟩
  · rw [registered_concat, Call.name?, Option.toList_none, List.append_nil]
    exact h.names
  · rw [route_subscribe, subscribedTo_concat, List.mem_append, ← h.mem_route]
    by_cases ha : a = address
    · rw [if_pos ha, if_pos ha]
      split
      · next hc =>
          rw [List.contains_iff_mem] at hc
          exact (or_iff_left_of_imp fun hn => List.mem_singleton.1 hn ▸ hc).symm
      · exact List.mem_append
    · rw [if_neg ha, if_neg ha]
      simp
  · rw [route_subscribe, subscribedTo_concat]
    have hm : ∀ next ∈ t.route a, next ∈ subscribedTo calls a := fun next => (h.mem_route a next).1
    have hold := pairwise_earlier_append (h.ordered a) hm
    by_cases ha : a = address
    · rw [if_pos ha, if_pos ha]
      split
      · exact hold [id]
      · next hc =>
          rw [List.contains_iff_mem, h.mem_route] at hc
          refine List.pairwise_append.2 ⟨hold [id], List.pairwise_singleton _ _, fun next hnext new hnew => ?_⟩
          rw [List.mem_singleton.1 hnew]
          exact earlier_of_notMem (hm next hnext) hc
    · rw [if_neg ha, if_neg ha]
      exact hold []
  · rw [hs, List.mem_append, List.mem_singleton, ← h.mem_subscriptions, RoutingTable.subscribe,
      Std.ExtTreeMap.mem_insert, Std.LawfulEqOrd.compare_eq_iff_eq, or_comm, eq_comm]
  · have hcount : t.subscriptions.size = ((subscribed calls).map Prod.fst).toFinset.card := h.addressCount
    have hinsert : ((subscribed calls).map Prod.fst ++ [address]).toFinset =
        insert address ((subscribed calls).map Prod.fst).toFinset := by
      rw [List.toFinset_append, Finset.insert_eq, Finset.union_comm]
      rfl
    rw [hs, hinsert, Finset.card_insert_eq_ite, ← hcount, RoutingTable.addressCount, RoutingTable.subscribe,
      Std.ExtTreeMap.size_insert]
    simp only [List.mem_toFinset, ← h.mem_subscriptions, Std.ExtTreeMap.mem_iff_contains]

theorem step (h : t.Follows calls) (call : Call) : (t.step call).Follows (calls ++ [call]) := by
  cases call with
  | register name => exact h.register name
  | subscribe address id => exact h.subscribe address id

theorem run (calls : List Call) : (RoutingTable.run calls).Follows calls := by
  induction calls using List.reverseRecOn with
  | nil => exact follows_empty
  | append_singleton calls call ih =>
      rw [run_concat]
      exact ih.step call

theorem hasSubscribers_iff (h : t.Follows calls) (a : Address) :
    t.hasSubscribers a = true ↔ t.route a ≠ [] := by
  rw [hasSubscribers, ← Std.ExtTreeMap.mem_iff_contains, h.mem_subscriptions, List.mem_map]
  constructor
  · rintro ⟨⟨_, id⟩, hm, rfl⟩
    exact List.ne_nil_of_mem ((h.mem_route _ id).2 (mem_subscribedTo.2 hm))
  · intro hne
    obtain ⟨id, hid⟩ := List.exists_mem_of_ne_nil _ hne
    exact ⟨(a, id), mem_subscribedTo.1 ((h.mem_route a id).1 hid), rfl⟩

theorem count_route (h : t.Follows calls) (a : Address) (id : RouteId) :
    (t.route a).count id = if id ∈ subscribedTo calls a then 1 else 0 := by
  rw [(nodup_of_pairwise_earlier (h.ordered a)).count]
  simp only [h.mem_route]

theorem routeName?_eq (h : t.Follows calls) (id : RouteId) :
    t.routeName? id = (registered calls)[id.index.toNat]? := by
  rw [routeName?, ← h.names, Array.getElem?_toList]

end Follows

/-- **Subscribers are sets in the order of their first subscription.** Whatever is called, an address lists
each route that was subscribed to it once and no other one, the route first that was subscribed first. An
address has subscribers exactly if it lists some, the addresses that have are counted, and a subscription
leaves what other addresses list. -/
theorem subscribers_of_calls (calls : List Call) :
    (∀ a, (∀ id, ((run calls).route a).count id = if id ∈ subscribedTo calls a then 1 else 0) ∧
      ((run calls).route a).Pairwise (Earlier (subscribedTo calls a)) ∧
      ((run calls).hasSubscribers a = true ↔ (run calls).route a ≠ [])) ∧
    (run calls).addressCount = ((subscribed calls).map Prod.fst).toFinset.card ∧
    ∀ address id a, a ≠ address → ((run calls).subscribe address id).route a = (run calls).route a := by
  have h := Follows.run calls
  refine ⟨fun a => ⟨h.count_route a, h.ordered a, h.hasSubscribers_iff a⟩, h.addressCount,
    fun address id a ha => ?_⟩
  rw [route_subscribe, if_neg ha]

/-- Routes that are subscribed more than once, one of them before it is registered. -/
def repeatedCalls : List Call :=
  [.register "r", .subscribe ⟨"a"⟩ (.ofNat 1), .subscribe ⟨"a"⟩ (.ofNat 0), .register "s",
    .subscribe ⟨"b"⟩ (.ofNat 0), .subscribe ⟨"a"⟩ (.ofNat 1)]

theorem subscribers_of_repeatedCalls :
    (run repeatedCalls).route ⟨"a"⟩ = [.ofNat 1, .ofNat 0] ∧
      ((run repeatedCalls).route ⟨"a"⟩).count (.ofNat 1) = 1 ∧ (run repeatedCalls).addressCount = 2 ∧
      (⟨"b"⟩ : Address) ≠ ⟨"a"⟩ ∧
      ((run repeatedCalls).subscribe ⟨"a"⟩ (.ofNat 7)).route ⟨"b"⟩ = (run repeatedCalls).route ⟨"b"⟩ := by
  obtain ⟨hlisted, haddresses, hother⟩ := subscribers_of_calls repeatedCalls
  have hne : (⟨"b"⟩ : Address) ≠ ⟨"a"⟩ := by decide
  exact ⟨by decide +kernel, ((hlisted ⟨"a"⟩).1 (.ofNat 1)).trans (by decide +kernel),
    haddresses.trans (by decide +kernel), hne, hother _ _ _ hne⟩

/-! ## Numbers -/

theorem answers_eq (t : RoutingTable) (calls : List Call) :
    t.answers calls = (List.range' t.routeCount (registered calls).length).map RouteId.ofNat := by
  induction calls generalizing t with
  | nil => rfl
  | cons call calls ih =>
      rw [answers, ih]
      cases call with
      | register name =>
          have hn : registered (.register name :: calls) = name :: registered calls := rfl
          have hc : (t.step (.register name)).routeCount = t.routeCount + 1 := Array.size_push name
          rw [hn, hc, List.length_cons, List.range'_succ, List.map_cons]
          rfl
      | subscribe address id => rfl

theorem answers_empty (calls : List Call) :
    answers {} calls = (List.range (registered calls).length).map RouteId.ofNat := by
  rw [answers_eq, List.range_eq_range']
  rfl

theorem nodup_map_ofNat_iff {n : Nat} : ((List.range n).map RouteId.ofNat).Nodup ↔ n ≤ RouteId.count := by
  constructor
  · intro h
    refine Nat.le_of_not_lt fun hlt => ?_
    -- The first number and the one behind the last are the same.
    have hinj := List.inj_on_of_nodup_map h (List.mem_range.2 hlt) (List.mem_range.2 (Nat.zero_lt_of_lt hlt))
    exact absurd (hinj rfl) (by decide)
  · intro h
    refine List.nodup_range.map_on fun i hi j hj he => ?_
    rw [List.mem_range] at hi hj
    exact (RouteId.ofNat_inj (Nat.lt_of_lt_of_le hi h) (Nat.lt_of_lt_of_le hj h)).1 he

theorem getElem?_answers {k : Nat} (h : (answers {} calls)[k]? = some id) :
    k < (registered calls).length ∧ id.index.toNat = k % RouteId.count := by
  rw [answers_empty, List.getElem?_map, Option.map_eq_some_iff] at h
  obtain ⟨n, hn, rfl⟩ := h
  obtain ⟨hlt, rfl⟩ := List.getElem?_eq_some_iff.1 hn
  rw [List.length_range] at hlt
  rw [List.getElem_range]
  exact ⟨hlt, RouteId.toNat_ofNat_eq_mod k⟩

/-- What a number leads to after any further calls. -/
theorem routeName?_of_answer {k : Nat} (h : (answers {} calls)[k]? = some id) (more : List Call) :
    (run (calls ++ more)).routeName? id = (registered calls)[k % RouteId.count]? := by
  obtain ⟨hlt, hid⟩ := getElem?_answers h
  rw [(Follows.run _).routeName?_eq, hid, registered_append]
  exact List.getElem?_append_left (Nat.lt_of_le_of_lt (Nat.mod_le _ _) hlt)

/-- **The numbers of registered names.** The names get the numbers from 0 on in the order of their calls, and
after the last number of 16 bits they start again with 0. After any further calls a number leads to the name
that got it first. So the numbers are distinct exactly if they suffice, and then each of them is the place of
its name and leads to it ever after. -/
theorem numbers_of_calls (calls more : List Call) :
    let ids := answers {} calls
    let names := registered calls
    ids.length = names.length ∧
    (∀ (k : Nat) id, ids[k]? = some id → id.index.toNat = k % RouteId.count ∧
      (run (calls ++ more)).routeName? id = names[k % RouteId.count]?) ∧
    (ids.Nodup ↔ names.length ≤ RouteId.count) ∧
    (names.length ≤ RouteId.count → ids.map (fun id => id.index.toNat) = List.range names.length ∧
      ∀ (k : Nat) id, ids[k]? = some id → (run (calls ++ more)).routeName? id = names[k]?) := by
  intro ids names
  have hids : ids = (List.range names.length).map RouteId.ofNat := answers_empty calls
  refine ⟨by rw [hids, List.length_map, List.length_range],
    fun k id hk => ⟨(getElem?_answers hk).2, routeName?_of_answer hk more⟩,
    by rw [hids, nodup_map_ofNat_iff], fun hle => ⟨?_, fun k id hk => ?_⟩⟩
  · rw [hids, List.map_map]
    conv => rhs; rw [← List.map_id (List.range names.length)]
    exact List.map_congr_left fun n hn => RouteId.toNat_ofNat (Nat.lt_of_lt_of_le (List.mem_range.1 hn) hle)
  · rw [routeName?_of_answer hk, Nat.mod_eq_of_lt (Nat.lt_of_lt_of_le (getElem?_answers hk).1 hle)]

theorem numbers_of_repeatedCalls :
    (registered repeatedCalls).length ≤ RouteId.count ∧ (answers {} repeatedCalls)[1]? = some (.ofNat 1) ∧
      (answers {} repeatedCalls).map (fun id => id.index.toNat) = [0, 1] ∧
      (run (repeatedCalls ++ [.register "r"])).routeName? (.ofNat 1) = some "s" := by
  obtain ⟨-, -, -, hsuffice⟩ := numbers_of_calls repeatedCalls [.register "r"]
  have hle : (registered repeatedCalls).length ≤ RouteId.count := by decide
  have hsecond : (answers {} repeatedCalls)[1]? = some (.ofNat 1) := by decide +kernel
  exact ⟨hle, hsecond, (hsuffice hle).1, (hsuffice hle).2 1 _ hsecond⟩

/-- Registers the numbers below `n` as names. -/
def countUp (n : Nat) : List Call := (List.range n).map fun k => .register (toString k)

theorem registered_countUp (n : Nat) : registered (countUp n) = (List.range n).map toString := by
  rw [registered, countUp, List.filterMap_map]
  exact congrFun List.filterMap_eq_map _

theorem answers_countUp (n : Nat) : answers {} (countUp n) = (List.range n).map RouteId.ofNat := by
  rw [answers_empty, registered_countUp, List.length_map, List.length_range]

/-- Behind the last number comes the first one again, and it keeps the name that it has. -/
theorem number_given_again :
    (answers {} (countUp 65537))[0]? = some (.ofNat 0) ∧ (answers {} (countUp 65537))[65536]? = some (.ofNat 0) ∧
      (registered (countUp 65537))[65536]? = some "65536" ∧
      (run (countUp 65537)).routeName? (.ofNat 0) = some "0" := by
  have hget (k : Nat) (hk : k < 65537) : (List.range 65537)[k]? = some k := List.getElem?_range hk
  rw [(Follows.run _).routeName?_eq, answers_countUp, registered_countUp]
  simp only [List.getElem?_map]
  rw [hget 0 (by decide), hget 65536 (by decide)]
  refine ⟨rfl, by decide, by decide, ?_⟩
  rw [show (RouteId.ofNat 0).index.toNat = 0 from rfl, hget 0 (by decide)]
  rfl

end RoutingTable

end FeedFiler
