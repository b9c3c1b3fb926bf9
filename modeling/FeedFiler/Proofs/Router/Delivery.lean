import Mathlib.Data.List.Induction
import Mathlib.Tactic.ByContra
import FeedFiler.Proofs.Router.Publishing

/-!
# What the channels of a router deliver

A router lives through registrations, publications, receipts and the closing of receivers in any order.
What was received from a channel and what it holds is what was published for it while it had room, in the
order of the publications; only a receiver that goes away loses what is queued.
-/

namespace FeedFiler.Router

/-! ## Histories -/

/-- What happens to a router and its channels. -/
inductive Event where
  /-- A filer gets a new channel, in place of the one that the route had. -/
  | register (id : RouteId) (name : String) (capacity : Nat)
  | publish (address : Address) (e : Envelope)
  | receive (channel : Nat)
  /-- The receiver closes the channel: no envelope is added any more, and those in it can be received. -/
  | close (channel : Nat)
  /-- The receiver goes away. -/
  | leave (channel : Nat)

/-- The route for which a channel is made. -/
def Event.route? : Event → Option RouteId
  | .register id _ _ => some id
  | _ => none

/-- A router and what became of the envelopes, by the channels. -/
structure History where
  router : Router
  received : Nat → List Envelope := fun _ => []
  /-- What was queued when the receiver went away. -/
  lost : Nat → List Envelope := fun _ => []

/-- The channel is closed, and keeps what is queued. -/
def shut (r : Router) (channel : Nat) : Router :=
  { r with channels := r.channels.modify channel fun c => { c with closed := true } }

namespace History

/-- What a channel holds. -/
def queued (s : History) (j : Nat) : List Envelope := (s.router.channels[j]?).elim [] Channel.queue

def step (s : History) : Event → History
  | .register id name capacity => { s with router := s.router.register id name capacity }
  | .publish address e => { s with router := (s.router.publish address e).2 }
  | .receive j =>
    match s.router.receive? j with
    | none => s
    | some (e, router) =>
      { s with router, received := Function.update s.received j (s.received j ++ [e]) }
  | .close j => { s with router := s.router.shut j }
  | .leave j => { s with
      router := s.router.close j
      lost := Function.update s.lost j (s.lost j ++ s.queued j) }

def run (table : RoutingTable) (events : List Event) : History := events.foldl step { router := { table } }

/-! ## What is expected -/

/-- The routes for which channels were made, in the order of the channels. -/
def registrations (events : List Event) : List RouteId := events.filterMap Event.route?

/-- The channel is the one that is registered for the route: the last that was made for it. -/
def IsCurrent (events : List Event) (id : RouteId) (j : Nat) : Prop :=
  (registrations events)[j]? = some id ∧ id ∉ (registrations events).drop (j + 1)

instance (events : List Event) (id : RouteId) (j : Nat) : Decidable (IsCurrent events id j) :=
  inferInstanceAs (Decidable (_ ∧ _))

/-- After these events, an envelope that is published on the address is for the channel: its route is
subscribed, and it is the channel that is registered for the route, open, and not full. -/
def Takes (table : RoutingTable) (events : List Event) (address : Address) (j : Nat) : Prop :=
  ∃ id ∈ table.route address, IsCurrent events id j ∧
    ∃ c ∈ (run table events).router.channels[j]?, c.closed = false ∧ c.queue.length < c.capacity

instance (table : RoutingTable) (events : List Event) (address : Address) (j : Nat) :
    Decidable (Takes table events address j) :=
  inferInstanceAs (Decidable (∃ id ∈ table.route address, _))

/-- The envelopes of those publications that were for the channel, in the order of the publications. -/
def accepted (table : RoutingTable) (events : List Event) (j : Nat) : List Envelope :=
  (List.range events.length).filterMap fun n =>
    match events[n]? with
    | some (Event.publish address e) => if Takes table (events.take n) address j then some e else none
    | _ => none

/-! ## One more event -/

variable {table : RoutingTable} {events : List Event} {s : History} {id : RouteId} {j : Nat} {event : Event}
  {address : Address} {e : Envelope} {c : Channel}

theorem run_concat (table : RoutingTable) (events : List Event) (event : Event) :
    run table (events ++ [event]) = (run table events).step event := by
  rw [run, List.foldl_append]
  rfl

theorem registrations_concat (events : List Event) (event : Event) :
    registrations (events ++ [event]) = registrations events ++ event.route?.toList := by
  rw [registrations, List.filterMap_append]
  cases h : event.route? <;> simp [registrations, h]

theorem isCurrent_concat (h : event.route? = none) :
    IsCurrent (events ++ [event]) id j ↔ IsCurrent events id j := by
  rw [IsCurrent, IsCurrent, registrations_concat, h, Option.toList_none, List.append_nil]

theorem accepted_concat (table : RoutingTable) (events : List Event) (event : Event) (j : Nat) :
    accepted table (events ++ [event]) j = accepted table events j ++
      match event with
      | .publish address e => if Takes table events address j then [e] else []
      | _ => [] := by
  rw [accepted, List.length_append, List.length_singleton, List.range_succ, List.filterMap_append, accepted]
  congr 1
  · refine List.filterMap_congr fun n hn => ?_
    have hlt := List.mem_range.1 hn
    rw [List.getElem?_append_left hlt, List.take_append_of_le_length (Nat.le_of_lt hlt)]
  · cases event with
    | publish address e => by_cases h : Takes table events address j <;> simp [h]
    | _ => simp

/-! ## The invariant -/

/-- The router has the channels that these events made, and the envelopes are where they are expected. -/
structure Sound (table : RoutingTable) (events : List Event) (s : History) : Prop where
  sameTable : s.router.table = table
  length : s.router.channels.length = (registrations events).length
  current : ∀ id j, (∃ name, s.router.handles[id]? = some ⟨name, j⟩) ↔ IsCurrent events id j
  bounded : ∀ c ∈ s.router.channels, c.queue.length ≤ c.capacity
  conserved : ∀ j, s.received j ++ s.lost j ++ s.queued j = accepted table events j
  gone : ∀ j, s.lost j ≠ [] → ∃ c, s.router.channels[j]? = some c ∧ c.closed = true ∧ c.queue = []
  kept : ∀ j, .leave j ∉ events → s.lost j = []

theorem Sound.separate (h : Sound table events s) : s.router.Separate := by
  intro id id' handle handle' hh hh' he
  obtain ⟨hid, -⟩ := (h.current id handle.channel).1 ⟨handle.name, hh⟩
  obtain ⟨hid', -⟩ := (h.current id' handle.channel).1 ⟨handle'.name, by rw [he]; exact hh'⟩
  rw [hid] at hid'
  exact Option.some.inj hid'

theorem Sound.kept_concat (h : Sound table events s) (j : Nat) (hj : .leave j ∉ events ++ [event]) :
    s.lost j = [] :=
  h.kept j fun hm => hj (List.mem_append_left _ hm)

theorem Sound.mem_takers (h : Sound table events (run table events)) :
    j ∈ (run table events).router.takers address ↔ Takes table events address j := by
  simp only [takers, h.sameTable, List.mem_filterMap, target?_eq_some, Takes]
  refine exists_congr fun id => and_congr_right fun _ => ?_
  rw [← h.current id j]
  constructor
  · rintro ⟨handle, c, hh, rfl, hc, hr⟩
    exact ⟨⟨handle.name, hh⟩, c, hc, hr⟩
  · rintro ⟨⟨name, hh⟩, c, hc, hr⟩
    exact ⟨⟨name, j⟩, c, hh, rfl, hc, hr⟩

/-- A state of a router on which nothing was registered yet. -/
theorem sound_empty (table : RoutingTable) : Sound table [] (run table []) := by
  refine ⟨rfl, rfl, fun id j => ?_, nofun, fun j => rfl, fun j h => absurd rfl h, fun j _ => rfl⟩
  simp [run, IsCurrent, registrations]

/-! ## Registrations -/

theorem isCurrent_register (events : List Event) (id id' : RouteId) (name : String) (capacity j : Nat) :
    IsCurrent (events ++ [.register id name capacity]) id' j ↔
      if id = id' then j = (registrations events).length else IsCurrent events id' j := by
  have hreg : registrations (events ++ [.register id name capacity]) = registrations events ++ [id] :=
    registrations_concat events _
  rw [IsCurrent, IsCurrent, hreg]
  rcases Nat.lt_trichotomy j (registrations events).length with hj | rfl | hj
  · rw [List.getElem?_append_left hj, List.drop_append_of_le_length hj, List.mem_append, not_or,
      List.mem_singleton]
    by_cases he : id = id'
    · rw [if_pos he]
      exact iff_of_false (fun hc => hc.2.2 he.symm) (Nat.ne_of_lt hj)
    · rw [if_neg he]
      exact ⟨fun hc => ⟨hc.1, hc.2.1⟩, fun hc => ⟨hc.1, hc.2, Ne.symm he⟩⟩
  · by_cases he : id = id'
    · simp [he]
    · simp [he]
  · have hnone : (registrations events ++ [id])[j]? = none := by
      rw [List.getElem?_eq_none]
      simpa using Nat.succ_le_of_lt hj
    rw [hnone, List.getElem?_eq_none (Nat.le_of_lt hj)]
    by_cases he : id = id'
    · simp [he, Nat.ne_of_gt hj]
    · simp [he]

theorem queued_register (s : History) (id : RouteId) (name : String) (capacity j : Nat) :
    (s.step (.register id name capacity)).queued j = s.queued j := by
  simp only [queued, step, Router.register, List.getElem?_append]
  split
  · rfl
  · next hj =>
      rw [List.getElem?_eq_none (Nat.not_lt.1 hj)]
      cases h : [({ capacity } : Channel)][j - s.router.channels.length]? with
      | none => rfl
      | some c =>
          rw [List.mem_singleton.1 (List.mem_of_getElem? h)]
          rfl

theorem Sound.register (h : Sound table events s) (id : RouteId) (name : String) (capacity : Nat) :
    Sound table (events ++ [.register id name capacity]) (s.step (.register id name capacity)) := by
  refine ⟨h.sameTable, ?_, fun id' j => ?_, ?_, fun j => ?_, fun j hj => ?_, fun j hj => ?_⟩
  · rw [registrations_concat, List.length_append, ← h.length]
    exact List.length_append
  · rw [isCurrent_register, ← h.length, ← h.current, step, Router.register, Std.ExtTreeMap.getElem?_insert]
    simp only [Std.LawfulEqOrd.compare_eq_iff_eq]
    by_cases he : id = id'
    · simp [he, eq_comm]
    · simp [he]
  · intro c hc
    rcases List.mem_append.1 hc with hc | hc
    · exact h.bounded c hc
    · rw [List.mem_singleton.1 hc]
      exact Nat.zero_le _
  · rw [accepted_concat, List.append_nil, queued_register, ← h.conserved j]
    rfl
  · obtain ⟨c, hc, hclosed⟩ := h.gone j hj
    refine ⟨c, ?_, hclosed⟩
    rw [step, Router.register, List.getElem?_append_left (List.getElem?_eq_some_iff.1 hc).1, hc]
  · exact h.kept_concat j hj

/-! ## Other events -/

/-- An event that makes no channel keeps the channels that are registered. -/
theorem Sound.keep {s' : History} (h : Sound table events s) (hroute : event.route? = none)
    (htable : s'.router.table = s.router.table) (hhandles : s'.router.handles = s.router.handles)
    (hlength : s'.router.channels.length = s.router.channels.length)
    (bounded : ∀ c ∈ s'.router.channels, c.queue.length ≤ c.capacity)
    (conserved : ∀ j, s'.received j ++ s'.lost j ++ s'.queued j = accepted table (events ++ [event]) j)
    (gone : ∀ j, s'.lost j ≠ [] → ∃ c, s'.router.channels[j]? = some c ∧ c.closed = true ∧ c.queue = [])
    (kept : ∀ j, .leave j ∉ events ++ [event] → s'.lost j = []) : Sound table (events ++ [event]) s' := by
  refine ⟨htable.trans h.sameTable, ?_, fun id j => ?_, bounded, conserved, gone, kept⟩
  · rw [hlength, h.length, registrations_concat, hroute, Option.toList_none, List.append_nil]
  · rw [hhandles, h.current, isCurrent_concat hroute]

/-- Queues stay within their capacities if each channel's own change respects them. -/
theorem Sound.bounded_of_getElem? (h : Sound table events s) {channels : List Channel}
    {g : Nat → Channel → Channel} (hget : ∀ i, channels[i]? = (s.router.channels[i]?).map (g i))
    (hg : ∀ i c, s.router.channels[i]? = some c → c.queue.length ≤ c.capacity →
      (g i c).queue.length ≤ (g i c).capacity) :
    ∀ c ∈ channels, c.queue.length ≤ c.capacity := by
  intro c' hc'
  obtain ⟨i, hi⟩ := List.getElem?_of_mem hc'
  rw [hget] at hi
  obtain ⟨c, hc, rfl⟩ := Option.map_eq_some_iff.1 hi
  exact hg i c hc (h.bounded c (List.mem_of_getElem? hc))

/-- Nobody but a publication adds an envelope. -/
theorem accepted_of_not_publish (table : RoutingTable) (events : List Event) (event : Event)
    (h : ∀ address e, event ≠ .publish address e) (j : Nat) :
    accepted table (events ++ [event]) j = accepted table events j := by
  rw [accepted_concat]
  cases event with
  | publish address e => exact absurd rfl (h address e)
  | _ => exact List.append_nil _

theorem Sound.channels_publish (h : Sound table events (run table events)) (ht : table.Made)
    (address : Address) (e : Envelope) (j : Nat) :
    ((run table events).router.publish address e).2.channels[j]? =
      ((run table events).router.channels[j]?).map fun c =>
        if Takes table events address j then c.push e else c := by
  obtain ⟨-, -, -, hchannels⟩ :=
    publish_eq (r := (run table events).router) (by rw [h.sameTable]; exact ht.nodup_route address) h.separate e
  rw [hchannels, List.getElem?_mapIdx]
  simp only [h.mem_takers]

theorem Sound.publish (h : Sound table events (run table events)) (ht : table.Made) (address : Address)
    (e : Envelope) : Sound table (events ++ [.publish address e])
      ((run table events).step (.publish address e)) := by
  obtain ⟨-, htable, hhandles, hchannels⟩ :=
    publish_eq (r := (run table events).router) (by rw [h.sameTable]; exact ht.nodup_route address) h.separate e
  refine h.keep rfl htable hhandles ?_ ?_ ?_ ?_ ?_
  · rw [step, hchannels, List.length_mapIdx]
  · refine h.bounded_of_getElem? (h.channels_publish ht address e) fun j c hc hle => ?_
    split
    · next htakes =>
        obtain ⟨id, -, -, d, hd, -, hlt⟩ := htakes
        rw [hc, Option.mem_some_iff] at hd
        subst hd
        rw [Channel.push, List.length_append]
        exact hlt
    · exact hle
  · intro j
    have hqueued : ((run table events).step (.publish address e)).queued j =
        (run table events).queued j ++ if Takes table events address j then [e] else [] := by
      rw [queued, step, h.channels_publish ht, queued]
      cases hc : (run table events).router.channels[j]? with
      | none =>
          rw [if_neg]
          · rfl
          · rintro ⟨id, -, -, d, hd, -⟩
            rw [hc] at hd
            cases hd
      | some c =>
          by_cases htakes : Takes table events address j
          · simp [htakes, Channel.push]
          · simp [htakes]
    rw [hqueued, accepted_concat, ← h.conserved j, List.append_assoc, List.append_assoc, List.append_assoc]
    rfl
  · intro j hj
    obtain ⟨c, hc, hclosed, hq⟩ := h.gone j hj
    refine ⟨c, ?_, hclosed, hq⟩
    rw [step, h.channels_publish ht, hc, Option.map_some, if_neg]
    rintro ⟨id, -, -, d, hd, hopen, -⟩
    rw [hc, Option.mem_some_iff] at hd
    subst hd
    rw [hclosed] at hopen
    cases hopen
  · exact h.kept_concat

theorem Sound.receive (h : Sound table events s) (j : Nat) :
    Sound table (events ++ [.receive j]) (s.step (.receive j)) := by
  have haccepted := accepted_of_not_publish table events (.receive j) nofun
  have hidle (hs : s.router.receive? j = none) :
      Sound table (events ++ [.receive j]) (s.step (.receive j)) := by
    rw [step, hs]
    exact h.keep rfl rfl rfl rfl h.bounded (fun i => by rw [haccepted, h.conserved]) h.gone h.kept_concat
  cases hc : s.router.channels[j]? with
  | none => exact hidle (by rw [Router.receive?, hc]; rfl)
  | some c =>
      cases hq : c.queue with
      | nil => exact hidle (receive?_nil hc hq)
      | cons e rest =>
          have hlost : s.lost j = [] := by
            by_contra hne
            obtain ⟨d, hd, -, hempty⟩ := h.gone j hne
            rw [hc] at hd
            cases hd
            rw [hq] at hempty
            cases hempty
          rw [step, receive?_cons hc hq]
          refine h.keep rfl rfl rfl (List.length_set) ?_ ?_ ?_ h.kept_concat
          · intro d hd
            rcases List.mem_or_eq_of_mem_set hd with hd | rfl
            · exact h.bounded d hd
            · have := h.bounded c (List.mem_of_getElem? hc)
              rw [hq, List.length_cons] at this
              exact Nat.le_of_succ_le this
          · intro i
            rw [haccepted, ← h.conserved]
            by_cases hi : j = i
            · subst hi
              have hset : (s.router.channels.set j { c with queue := rest })[j]? =
                  some { c with queue := rest } := by
                rw [List.getElem?_set_self (List.getElem?_eq_some_iff.1 hc).1]
              simp [queued, hset, hc, hq, hlost]
            · simp [queued, hi, Ne.symm hi]
          · intro i hi
            obtain ⟨d, hd, hclosed, hempty⟩ := h.gone i hi
            refine ⟨d, ?_, hclosed, hempty⟩
            rw [List.getElem?_set_ne, hd]
            rintro rfl
            exact hi hlost

theorem Sound.close (h : Sound table events s) (j : Nat) :
    Sound table (events ++ [.close j]) (s.step (.close j)) := by
  have hget (i : Nat) : (s.router.shut j).channels[i]? =
      (s.router.channels[i]?).map fun c => if j = i then { c with closed := true } else c := by
    rw [shut, List.getElem?_modify]
    split <;> rfl
  have hqueued (i : Nat) : (s.step (.close j)).queued i = s.queued i := by
    rw [queued, step, hget, queued]
    cases s.router.channels[i]? with
    | none => rfl
    | some c =>
        rw [Option.map_some]
        split <;> rfl
  refine h.keep rfl rfl rfl (List.length_modify _ _ _) ?_ (fun i => ?_) (fun i hi => ?_) h.kept_concat
  · refine h.bounded_of_getElem? hget fun i c _ hle => ?_
    split
    · exact hle
    · exact hle
  · rw [hqueued, accepted_of_not_publish table events _ (by simp), ← h.conserved]
    rfl
  · obtain ⟨c, hc, hclosed, hempty⟩ := h.gone i hi
    rw [step, hget, hc]
    by_cases he : j = i
    · exact ⟨_, rfl, by simp [he], by simp [he, hempty]⟩
    · exact ⟨_, rfl, by simp [he, hclosed], by simp [he, hempty]⟩

theorem Sound.leave (h : Sound table events s) (j : Nat) :
    Sound table (events ++ [.leave j]) (s.step (.leave j)) := by
  have hget (i : Nat) : (s.router.close j).channels[i]? =
      (s.router.channels[i]?).map fun c => if j = i then c.close else c := by
    rw [Router.close, List.getElem?_modify]
    split <;> rfl
  have hself : (s.step (.leave j)).lost j = s.lost j ++ s.queued j := Function.update_self j _ _
  have hother {i : Nat} (hi : j ≠ i) : (s.step (.leave j)).lost i = s.lost i :=
    Function.update_of_ne (Ne.symm hi) _ _
  have hempty (c : Channel) (hc : s.router.channels[j]? = some c) :
      (s.router.close j).channels[j]? = some c.close := by
    rw [hget, hc, Option.map_some, if_pos rfl]
  refine h.keep rfl rfl rfl (List.length_modify _ _ _) ?_ (fun i => ?_) (fun i hi => ?_) (fun i hi => ?_)
  · refine h.bounded_of_getElem? hget fun i c _ hle => ?_
    split
    · exact Nat.zero_le _
    · exact hle
  · rw [accepted_of_not_publish table events _ (by simp), ← h.conserved]
    by_cases he : j = i
    · subst he
      have hnone : (s.step (.leave j)).queued j = [] := by
        rw [queued, step, hget]
        cases s.router.channels[j]? with
        | none => rfl
        | some c => simp [Channel.close]
      rw [hself, hnone, List.append_nil, List.append_assoc]
      rfl
    · rw [hother he, queued, step, hget]
      simp [he, queued]
  · by_cases he : j = i
    · subst he
      cases hc : s.router.channels[j]? with
      | some c => exact ⟨c.close, hempty c hc, rfl, rfl⟩
      | none =>
          -- There is no such channel, so nothing was lost with it.
          rw [hself, queued, hc] at hi
          obtain ⟨c, hc', -⟩ := h.gone j (by simpa using hi)
          rw [hc] at hc'
          cases hc'
    · rw [hother he] at hi
      obtain ⟨c, hc, hclosed⟩ := h.gone i hi
      exact ⟨c, by rw [step, hget, hc, Option.map_some, if_neg he], hclosed⟩
  · rw [hother fun he => hi (by simp [he])]
    exact h.kept_concat i hi

/-! ## Runs -/

theorem sound_run (ht : table.Made) (events : List Event) : Sound table events (run table events) := by
  induction events using List.reverseRecOn with
  | nil => exact sound_empty table
  | append_singleton events event ih =>
      rw [run_concat]
      cases event with
      | register id name capacity => exact ih.register id name capacity
      | publish address e => exact ih.publish ht address e
      | receive j => exact ih.receive j
      | close j => exact ih.close j
      | leave j => exact ih.leave j

theorem Sound.length_takers (h : Sound table events (run table events)) (ht : table.Made) (address : Address) :
    ((run table events).router.takers address).length =
      (List.range (run table events).router.channels.length).countP fun j => Takes table events address j := by
  have hn : ((run table events).router.takers address).Nodup :=
    nodup_takers (by rw [h.sameTable]; exact ht.nodup_route address) h.separate
  rw [List.countP_eq_length_filter]
  refine ((List.perm_ext_iff_of_nodup hn (List.nodup_range.filter _)).2 fun j => ?_).length_eq
  rw [h.mem_takers, List.mem_filter, decide_eq_true_iff, List.mem_range]
  refine (and_iff_right_of_imp ?_).symm
  rintro ⟨id, -, -, c, hc, -⟩
  exact (List.getElem?_eq_some_iff.1 hc).1

/-- **What the receiver of a channel got, then what was lost when it went away, then what is queued, are
the envelopes that were published for the channel while it had room.** Nothing is lost as long as the
receiver stays. No queue is longer than its capacity. One more publication counts the channels that the
envelope is for, adds it to these, and changes no channel of a route that is not subscribed. -/
theorem delivery_of_run (ht : table.Made) (events : List Event) :
    (∀ j, (run table events).received j ++ (run table events).lost j ++ (run table events).queued j =
      accepted table events j) ∧
    (∀ j, .leave j ∉ events → (run table events).lost j = []) ∧
    (∀ c ∈ (run table events).router.channels, c.queue.length ≤ c.capacity) ∧
    ∀ address e,
      ((run table events).router.publish address e).1 =
        (List.range (run table events).router.channels.length).countP (fun j => Takes table events address j) ∧
      (∀ j, ((run table events).router.publish address e).2.channels[j]? =
        ((run table events).router.channels[j]?).map fun c =>
          if Takes table events address j then c.push e else c) ∧
      ∀ (j : Nat) (id : RouteId), (registrations events)[j]? = some id → id ∉ table.route address →
        ((run table events).router.publish address e).2.channels[j]? =
          (run table events).router.channels[j]? := by
  have h := sound_run ht events
  refine ⟨h.conserved, h.kept, h.bounded, fun address e => ⟨?_, h.channels_publish ht address e, ?_⟩⟩
  · obtain ⟨hcount, -⟩ := publish_eq (r := (run table events).router)
      (by rw [h.sameTable]; exact ht.nodup_route address) h.separate e
    rw [hcount, h.length_takers ht]
  · intro j id hid hroute
    have hnot : ¬ Takes table events address j := by
      rintro ⟨other, hm, ⟨hother, -⟩, -⟩
      exact hroute (Option.some.inj (hother.symm.trans hid) ▸ hm)
    rw [h.channels_publish ht, funext fun c : Channel => if_neg hnot, Option.map_id']

/-- A full channel misses the second envelope, its successor gets the third and loses it. -/
theorem delivery_of_replaced :
    let table := (({} : RoutingTable).register "r").2.subscribe ⟨"a"⟩ (.ofNat 0)
    let publish (moduleId : String) := Event.publish ⟨"a"⟩ { moduleId }
    let events := [.register (.ofNat 0) "r" 1, publish "1", publish "2", .close 0, .register (.ofNat 0) "r" 2,
      publish "3", .receive 0, .leave 1]
    table.Made ∧
      ((run table events).received 0 ++ (run table events).lost 0 ++ (run table events).queued 0).map
        Envelope.moduleId = ["1"] ∧
      ((run table events).received 1 ++ (run table events).lost 1 ++ (run table events).queued 1).map
        Envelope.moduleId = ["3"] := by
  intro table publish events
  have ht : table.Made := (RoutingTable.Made.empty.register "r").subscribe ⟨"a"⟩ (.ofNat 0)
  obtain ⟨h, -⟩ := delivery_of_run ht events
  rw [h, h]
  exact ⟨ht, by decide +kernel, by decide +kernel⟩

/-- What is queued when the receiver goes away is neither received nor queued afterwards. -/
theorem delivery_of_left :
    ¬ ∀ (table : RoutingTable) (events : List Event), table.Made → ∀ j,
      (run table events).received j ++ (run table events).queued j = accepted table events j := by
  intro h
  have hleft := congrArg List.length (h _
    [.register (.ofNat 0) "r" 2, .publish ⟨"a"⟩ { moduleName := "m", moduleId := "1" }, .leave 0]
    ((RoutingTable.Made.empty.register "r").subscribe ⟨"a"⟩ (.ofNat 0)) 0)
  revert hleft
  decide +kernel

end History

end FeedFiler.Router
