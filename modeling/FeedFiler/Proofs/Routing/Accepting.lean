import FeedFiler.Proofs.Routing.Building

/-!
# Which routes are accepted

A builder may be asked for any routes, one after the other. The ones that it accepts keep the maps from
names to numbers and back inverse to each other, and the ones that it refuses change nothing.
-/

namespace FeedFiler

namespace RouteId

theorem toNat_ofNat {n : Nat} (h : n < count) : (ofNat n).index.toNat = n := by
  rw [count] at h
  simp [ofNat, Nat.mod_eq_of_lt h]

theorem ofNat_toNat (id : RouteId) : ofNat id.index.toNat = id := by
  simp [ofNat]

theorem eq_ofNat_iff {id : RouteId} {n : Nat} (h : n < count) : id = .ofNat n ↔ id.index.toNat = n := by
  constructor
  · rintro rfl
    exact toNat_ofNat h
  · rintro rfl
    exact (ofNat_toNat id).symm

end RouteId

namespace RoutingBuilder

open RouteId (toNat_ofNat ofNat_toNat)

variable {b b' : RoutingBuilder} {routes : List (String × Address)} {name : String} {address a : Address}
  {id : RouteId}

theorem increasing_subscribers (h : routes.length ≤ RouteId.count) (a : Address) :
    (subscribers routes a).Pairwise fun id next => id.index < next.index := by
  induction routes using List.reverseRecOn with
  | nil => exact List.Pairwise.nil
  | append_singleton routes route ih =>
      rw [List.length_append, List.length_singleton] at h
      rw [subscribers_concat]
      split
      · rw [List.pairwise_append]
        refine ⟨ih (by omega), List.pairwise_singleton .., fun id hid next hnext => ?_⟩
        obtain ⟨n, name, hn, rfl⟩ := mem_subscribers.1 hid
        have hlt := (List.getElem?_eq_some_iff.1 hn).1
        rw [List.mem_singleton.1 hnext, UInt16.lt_iff_toNat_lt, toNat_ofNat (by omega), toNat_ofNat (by omega)]
        exact hlt
      · rw [List.append_nil]
        exact ih (by omega)

/-- The builder has accepted these routes, and knows them by their names. -/
structure Accepts (b : RoutingBuilder) (routes : List (String × Address)) : Prop extends b.Lists routes where
  nodup : (routes.map Prod.fst).Nodup
  names : b.table.names.toList = routes.map Prod.fst
  id? : ∀ name id, b.id? name = some id ↔ (routes.map Prod.fst)[id.index.toNat]? = some name

theorem accepts_empty : Accepts {} [] := by
  refine ⟨lists_empty, List.nodup_nil, rfl, fun name id => ?_⟩
  simp [RoutingBuilder.id?]

/-- What is answered to one more route, by the routes that were accepted before it. -/
def answer (routes : List (String × Address)) (name : String) (address : Address) :
    Except RoutingError RouteId :=
  if name ∈ routes.map Prod.fst then .error (.duplicateRoute name)
  else if address.isEmpty then .error (.emptyAddress name)
  else if routes.length = RouteId.count then .error .tooManyRoutes
  else .ok (.ofNat routes.length)

/-- A route that is refused leaves the builder as it is. -/
theorem eq_of_refused {cause : RoutingError} (ha : b.add name address = (.error cause, b')) : b' = b := by
  rw [RoutingBuilder.add] at ha
  split at ha
  · cases ha
    rfl
  · split at ha
    · cases ha
      rfl
    · split at ha
      · cases ha
        rfl
      · cases ha

namespace Accepts

variable (h : b.Accepts routes)
include h

theorem routeName?_eq (id : RouteId) :
    b.table.routeName? id = (routes.map Prod.fst)[id.index.toNat]? := by
  rw [← h.names, Array.getElem?_toList]
  rfl

theorem id?_eq_some_iff : b.id? name = some id ↔ b.table.routeName? id = some name := by
  rw [h.id?, h.routeName?_eq]

theorem lt_count {n : Nat} (hn : n < routes.length) : n < RouteId.count := Nat.lt_of_lt_of_le hn h.le

theorem isSome_id?_iff : (b.id? name).isSome ↔ name ∈ routes.map Prod.fst := by
  rw [Option.isSome_iff_exists, List.mem_iff_getElem?]
  constructor
  · rintro ⟨id, hid⟩
    exact ⟨_, (h.id? name id).1 hid⟩
  · rintro ⟨n, hn⟩
    have hlt : n < routes.length := by simpa using (List.getElem?_eq_some_iff.1 hn).1
    exact ⟨.ofNat n, (h.id? name _).2 (by rwa [toNat_ofNat (h.lt_count hlt)])⟩

theorem mem_route : id ∈ b.table.route a ↔ ∃ name, routes[id.index.toNat]? = some (name, a) := by
  rw [h.route, mem_subscribers]
  constructor
  · rintro ⟨n, name, hn, rfl⟩
    rw [toNat_ofNat (h.lt_count (List.getElem?_eq_some_iff.1 hn).1)]
    exact ⟨name, hn⟩
  · rintro ⟨name, hn⟩
    exact ⟨_, name, hn, (ofNat_toNat id).symm⟩

theorem contains_iff : b.ids.contains name = true ↔ name ∈ routes.map Prod.fst := by
  rw [← h.isSome_id?_iff, RoutingBuilder.id?, Std.ExtTreeMap.isSome_getElem?_eq_contains]

/-- The builder answers what the routes that it has accepted say. -/
theorem answer_eq (name : String) (address : Address) :
    (b.add name address).1 = answer routes name address := by
  have hfull : RouteId.count ≤ b.table.routeCount ↔ routes.length = RouteId.count := by
    rw [h.count]
    exact ⟨Nat.le_antisymm h.le, fun hc => Nat.le_of_eq hc.symm⟩
  have hsize : b.table.names.size = routes.length := h.count
  simp only [RoutingBuilder.add, answer, h.contains_iff, hfull, apply_ite Prod.fst, RoutingTable.register, hsize]

/-- A route that is accepted comes behind the others. -/
theorem of_ok (ha : b.add name address = (.ok id, b')) :
    id = .ofNat routes.length ∧ routes.length < RouteId.count ∧ b'.Accepts (routes ++ [(name, address)]) := by
  obtain ⟨hid, hlists⟩ := h.toLists.add ha
  have hlt : routes.length < RouteId.count := Nat.lt_of_succ_le (by simpa using hlists.le)
  have hanswer := h.answer_eq name address
  rw [ha, answer] at hanswer
  have hnew : name ∉ routes.map Prod.fst := by
    intro hm
    rw [if_pos hm] at hanswer
    cases hanswer
  have hb : b'.ids = b.ids.insert name id ∧ b'.table.names = b.table.names.push name := by
    rw [RoutingBuilder.add] at ha
    split at ha
    · cases ha
    · split at ha
      · cases ha
      · split at ha
        · cases ha
        · cases ha
          exact ⟨rfl, rfl⟩
  refine ⟨hid, hlt, hlists, ?_, ?_, fun other i => ?_⟩
  · rw [List.map_append]
    exact List.Nodup.append h.nodup (List.nodup_singleton _) (List.disjoint_singleton.2 hnew)
  · simp [hb.2, h.names]
  · have hat (n : Nat) : ((routes ++ [(name, address)]).map Prod.fst)[n]? =
        if n = routes.length then some name else (routes.map Prod.fst)[n]? := by grind
    rw [hat, RoutingBuilder.id?, hb.1, Std.ExtTreeMap.getElem?_insert]
    simp only [Std.LawfulEqOrd.compare_eq_iff_eq]
    have hother : b.ids[other]? = some i ↔ (routes.map Prod.fst)[i.index.toNat]? = some other := h.id? other i
    by_cases hn : name = other
    · subst hn
      have hnone : (routes.map Prod.fst)[i.index.toNat]? ≠ some name := fun hm => hnew (List.mem_of_getElem? hm)
      rw [if_pos rfl, hid, Option.some_inj, eq_comm, RouteId.eq_ofNat_iff hlt]
      split
      · next hi => simp [hi]
      · next hi => exact iff_of_false hi hnone
    · rw [if_neg hn, hother]
      split
      · next hi => simp [hi, hn]
      · exact Iff.rfl

end Accepts

/-! ## Some routes -/

/-- Adds routes one after the other, whether they are accepted or not; what is answered to them. -/
def addEach (b : RoutingBuilder) :
    List (String × Address) → List (Except RoutingError RouteId) × RoutingBuilder
  | [] => ([], b)
  | (name, address) :: calls =>
    let (answer, b) := b.add name address
    let (answers, b) := b.addEach calls
    (answer :: answers, b)

/-- The calls that were accepted. -/
def accepted : List (String × Address) → List (Except RoutingError RouteId) → List (String × Address)
  | call :: calls, .ok _ :: answers => call :: accepted calls answers
  | _ :: calls, .error _ :: answers => accepted calls answers
  | _, _ => []

/-- What the accepted calls were answered. -/
def numbers (answers : List (Except RoutingError RouteId)) : List RouteId := answers.filterMap Except.toOption

theorem Accepts.addEach (h : b.Accepts routes) (calls : List (String × Address)) :
    (b.addEach calls).2.Accepts (routes ++ accepted calls (b.addEach calls).1) ∧
      numbers (b.addEach calls).1 =
        (List.range' routes.length (accepted calls (b.addEach calls).1).length).map .ofNat := by
  induction calls generalizing b routes with
  | nil => exact ⟨by simpa [RoutingBuilder.addEach, accepted] using h, rfl⟩
  | cons call calls ih =>
      obtain ⟨name, address⟩ := call
      rw [RoutingBuilder.addEach]
      cases ha : b.add name address with
      | mk answer b' =>
          cases answer with
          | error cause =>
              rw [eq_of_refused ha]
              exact ih h
          | ok id =>
              -- The rest is added behind one more accepted route.
              obtain ⟨rfl, -, h'⟩ := h.of_ok ha
              obtain ⟨hrest, hnumbers⟩ := ih h'
              rw [List.append_assoc] at hrest
              refine ⟨hrest, ?_⟩
              rw [List.length_append, List.length_singleton] at hnumbers
              dsimp only
              rw [accepted, List.length_cons, List.range'_succ, List.map_cons, ← hnumbers]
              rfl

/-- **A builder stays consistent whatever routes it is asked for.** The accepted routes have the numbers from
0 on in the order of their calls, without a gap and without a number coming again, and names and numbers
lead to each other. Each number is subscribed to one address, the one of its call, and an address lists
its numbers in increasing order. What is answered next depends on the accepted routes alone, and a refusal
changes nothing. -/
theorem accepted_consistent (calls : List (String × Address)) :
    let s := addEach {} calls
    let routes := accepted calls s.1
    s.2.table.routeCount = routes.length ∧ routes.length ≤ RouteId.count ∧ (routes.map Prod.fst).Nodup ∧
    (numbers s.1).map (fun id => id.index.toNat) = List.range routes.length ∧
    (∀ name id, s.2.id? name = some id ↔ s.2.table.routeName? id = some name) ∧
    (∀ name id, s.2.table.routeName? id = some name ↔
      ∃ address, routes[id.index.toNat]? = some (name, address)) ∧
    (∀ id address, id ∈ s.2.table.route address ↔
      ∃ name, routes[id.index.toNat]? = some (name, address)) ∧
    (∀ id, id.index.toNat < s.2.table.routeCount → ∃! address, id ∈ s.2.table.route address) ∧
    (∀ address, (s.2.table.route address).Pairwise fun id next => id.index < next.index) ∧
    ∀ name address, (s.2.add name address).1 = answer routes name address ∧
      ((s.2.add name address).1.isOk = false → (s.2.add name address).2 = s.2) := by
  intro s routes
  obtain ⟨h, hnumbers⟩ := accepts_empty.addEach calls
  rw [List.nil_append] at h
  refine ⟨h.count, h.le, h.nodup, ?_, fun name id => h.id?_eq_some_iff, fun name id => ?_,
    fun id address => h.mem_route, fun id hid => ?_, fun address => ?_,
    fun name address => ⟨h.answer_eq name address, fun hrefused => ?_⟩⟩
  · rw [hnumbers, List.map_map, List.length_nil, List.range_eq_range']
    conv => rhs; rw [← List.map_id (List.range' ..)]
    refine List.map_congr_left fun n hn => toNat_ofNat (h.lt_count ?_)
    simpa using (List.mem_range'_1.1 hn).2
  · simp [h.routeName?_eq, routes, s]
  · rw [h.count] at hid
    have hget := List.getElem?_eq_getElem hid
    refine ⟨_, h.mem_route.2 ⟨_, hget⟩, fun address ha => ?_⟩
    obtain ⟨name, hn⟩ := h.mem_route.1 ha
    exact congrArg Prod.snd (Option.some.inj (hn.symm.trans hget))
  · rw [h.route]
    exact increasing_subscribers h.le address
  · cases ha : s.2.add name address with
    | mk result b =>
        cases result with
        | error cause => exact eq_of_refused ha
        | ok id =>
            rw [ha] at hrefused
            cases hrefused

end RoutingBuilder

end FeedFiler
