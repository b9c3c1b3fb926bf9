import FeedFiler.Proofs.Routing.Building
import FeedFiler.Router

/-!
# What one publication does

A publication that does not wait adds the envelope to the channel of each subscribed route that has one
with room, and changes no other channel.
-/

namespace FeedFiler

/-! ## Tables -/

namespace RoutingTable

/-- The table came about by registering routes and by subscribing routes to addresses. -/
inductive Made : RoutingTable → Prop where
  | empty : Made {}
  | register {t : RoutingTable} (made : Made t) (name : String) : Made (t.register name).2
  | subscribe {t : RoutingTable} (made : Made t) (address : Address) (id : RouteId) :
      Made (t.subscribe address id)

theorem Made.nodup_route {t : RoutingTable} (h : t.Made) (address : Address) : (t.route address).Nodup := by
  induction h with
  | empty =>
      rw [route, Std.ExtTreeMap.getElem?_empty]
      exact List.nodup_nil
  | register made name ih => exact ih
  | subscribe made a id ih =>
      rw [route_subscribe]
      split
      · split
        · exact ih
        · next hc =>
            rw [List.contains_iff_mem] at hc
            exact ih.append (List.nodup_singleton id) (List.disjoint_singleton.2 hc)
      · exact ih

end RoutingTable

/-! ## Channels -/

namespace Channel

/-- The channel is open and not full. -/
def HasRoom (c : Channel) : Prop := c.closed = false ∧ c.queue.length < c.capacity

instance (c : Channel) : Decidable c.HasRoom :=
  inferInstanceAs (Decidable (c.closed = false ∧ c.queue.length < c.capacity))

def push (c : Channel) (e : Envelope) : Channel := { c with queue := c.queue ++ [e] }

variable {c : Channel}

theorem send_of_hasRoom (h : c.HasRoom) (e : Envelope) : c.send e = .ok (c.push e) := by
  have hf : c.free ≠ 0 := Nat.sub_ne_zero_of_lt h.2
  rw [send, if_neg (Bool.eq_false_iff.1 h.1), if_neg hf, push]

theorem send_of_not_hasRoom (h : ¬ c.HasRoom) (e : Envelope) : ∃ refusal, c.send e = .error refusal := by
  rw [send]
  split
  · exact ⟨.closed, rfl⟩
  · next hc =>
      have hf : c.free = 0 := by
        rw [HasRoom, not_and, Nat.not_lt] at h
        exact Nat.sub_eq_zero_of_le (h (Bool.eq_false_iff.2 hc))
      rw [if_pos hf]
      exact ⟨.full, rfl⟩

end Channel

/-! ## Sends -/

namespace Router

/-- The channel that an envelope for the route is added to. -/
def target? (r : Router) (id : RouteId) : Option Nat :=
  (r.handles[id]?).bind fun handle =>
    (r.channels[handle.channel]?).bind fun c => if c.HasRoom then some handle.channel else none

/-- No two routes have the same channel. -/
def Separate (r : Router) : Prop :=
  ∀ (id id' : RouteId) (handle handle' : FilerHandle),
    r.handles[id]? = some handle → r.handles[id']? = some handle' →
    handle.channel = handle'.channel → id = id'

/-- The router with the envelope added to a channel. -/
def push (r : Router) (e : Envelope) (j : Nat) : Router :=
  { r with channels := r.channels.modify j fun c => c.push e }

variable {r r' : Router} {id : RouteId} {ids : List RouteId} {j : Nat} {e : Envelope} {address : Address}

theorem target?_eq_some : r.target? id = some j ↔
    ∃ handle c, r.handles[id]? = some handle ∧ handle.channel = j ∧ r.channels[j]? = some c ∧ c.HasRoom := by
  simp only [target?, Option.bind_eq_some_iff]
  constructor
  · rintro ⟨handle, hh, c, hc, ht⟩
    split at ht
    · next hr =>
        cases ht
        exact ⟨handle, c, hh, rfl, hc, hr⟩
    · cases ht
  · rintro ⟨handle, c, hh, rfl, hc, hr⟩
    exact ⟨handle, hh, c, hc, if_pos hr⟩

theorem offer_of_target (h : r.target? id = some j) (e : Envelope) : r.offer e id = (.sent, r.push e j) := by
  obtain ⟨handle, c, hh, rfl, hc, hr⟩ := target?_eq_some.1 h
  simp only [offer, hh, hc, Channel.send_of_hasRoom hr, push, List.modify_eq_set_getElem?,
    Option.map_eq_map, Option.map_some, Option.getD_some]

theorem offer_of_target_eq_none (h : r.target? id = none) (e : Envelope) :
    (r.offer e id).1 ≠ .sent ∧ (r.offer e id).2 = r := by
  rw [offer]
  split
  · exact ⟨nofun, rfl⟩
  · next handle hh =>
      split
      · exact ⟨nofun, rfl⟩
      · next c hc =>
          have hr : ¬ c.HasRoom := fun hr => by
            rw [target?_eq_some.2 ⟨handle, c, hh, rfl, hc, hr⟩] at h
            cases h
          obtain ⟨refusal, hs⟩ := Channel.send_of_not_hasRoom hr e
          rw [hs]
          cases refusal with
          | full => exact ⟨nofun, rfl⟩
          | closed => exact ⟨nofun, rfl⟩

theorem target?_congr (hh : r'.handles = r.handles) (hc : r'.channels = r.channels) (id : RouteId) :
    r'.target? id = r.target? id := by
  rw [target?, target?, hh, hc]

theorem target?_inj (hs : r.Separate) {other : RouteId} (h : r.target? id = some j)
    (h' : r.target? other = some j) : id = other := by
  obtain ⟨handle, -, hh, he, -, -⟩ := target?_eq_some.1 h
  obtain ⟨handle', -, hh', he', -, -⟩ := target?_eq_some.1 h'
  exact hs id other handle handle' hh hh' (he.trans he'.symm)

/-- A send changes nothing for the other routes. -/
theorem target?_push (h : r.Separate) (hj : r.target? id = some j) {other : RouteId} (hne : other ≠ id)
    (e : Envelope) : (r.push e j).target? other = r.target? other := by
  obtain ⟨handle, c, hh, rfl, -, -⟩ := target?_eq_some.1 hj
  rw [target?, target?]
  cases ho : r.handles[other]? with
  | none => simp [push, ho]
  | some handle' =>
      have hch : handle.channel ≠ handle'.channel := fun he => hne (h _ _ _ _ ho hh he.symm)
      simp [push, ho, List.getElem?_modify, hch]

@[simp] theorem countSend_table (r : Router) (delivery : Delivery) :
    (r.countSend delivery).table = r.table := by
  cases delivery <;> rfl

@[simp] theorem countSend_handles (r : Router) (delivery : Delivery) :
    (r.countSend delivery).handles = r.handles := by
  cases delivery <;> rfl

@[simp] theorem countSend_channels (r : Router) (delivery : Delivery) :
    (r.countSend delivery).channels = r.channels := by
  cases delivery <;> rfl

theorem sendAll_cons (e : Envelope) (id : RouteId) (ids : List RouteId) (r : Router) :
    sendAll e (id :: ids) r =
      ((if (r.offer e id).1 = .sent then 1 else 0) +
          (sendAll e ids ((r.offer e id).2.countSend (r.offer e id).1)).1,
        (sendAll e ids ((r.offer e id).2.countSend (r.offer e id).1)).2) := rfl

/-- Sends add the envelope to the channels of the routes that have room, and count them. -/
theorem sendAll_eq (hn : ids.Nodup) (hs : r.Separate) (e : Envelope) :
    (sendAll e ids r).1 = (ids.filterMap r.target?).length ∧ (sendAll e ids r).2.table = r.table ∧
      (sendAll e ids r).2.handles = r.handles ∧
        (sendAll e ids r).2.channels = r.channels.mapIdx fun j c =>
          if j ∈ ids.filterMap r.target? then c.push e else c := by
  induction ids generalizing r with
  | nil => exact ⟨rfl, rfl, rfl, List.ext_getElem? fun j => by simp [sendAll]⟩
  | cons id ids ih =>
      obtain ⟨hid, hn⟩ := List.nodup_cons.1 hn
      rw [sendAll_cons]
      cases ht : r.target? id with
      | none =>
          obtain ⟨hd, hr⟩ := offer_of_target_eq_none ht e
          have hsame : ids.filterMap (r.countSend (r.offer e id).1).target? = ids.filterMap r.target? :=
            List.filterMap_congr fun other _ =>
              target?_congr (countSend_handles _ _) (countSend_channels _ _) other
          obtain ⟨hcount, htable, hhandles, hchannels⟩ := ih hn (r := r.countSend (r.offer e id).1)
            (by rw [Separate, countSend_handles]; exact hs)
          rw [hr, if_neg hd, Nat.zero_add, List.filterMap_cons_none ht]
          rw [hsame, countSend_channels] at hchannels
          exact ⟨by rw [hcount, hsame], by rw [htable, countSend_table], by rw [hhandles, countSend_handles],
            hchannels⟩
      | some j =>
          have ho := offer_of_target ht e
          have hsame : ids.filterMap ((r.push e j).countSend .sent).target? = ids.filterMap r.target? :=
            List.filterMap_congr fun other hm =>
              (target?_congr (countSend_handles _ _) (countSend_channels _ _) other).trans
                (target?_push hs ht (fun he => hid (he ▸ hm)) e)
          obtain ⟨hcount, htable, hhandles, hchannels⟩ := ih hn (r := (r.push e j).countSend .sent)
            (by rw [Separate, countSend_handles]; exact hs)
          rw [ho, if_pos rfl, List.filterMap_cons_some ht]
          refine ⟨by rw [hcount, hsame, List.length_cons, Nat.add_comm], htable, hhandles, ?_⟩
          have hj : j ∉ ids.filterMap r.target? := fun hm => by
            obtain ⟨other, ho, he⟩ := List.mem_filterMap.1 hm
            exact hid (target?_inj hs ht he ▸ ho)
          rw [hchannels, hsame, countSend_channels, push]
          refine List.ext_getElem? fun i => ?_
          rw [List.getElem?_mapIdx, List.getElem?_mapIdx, List.getElem?_modify]
          by_cases hi : j = i
          · subst hi
            simp [hj, Function.comp_def]
          · simp [hi, Ne.symm hi]

/-! ## Receipts -/

theorem receive?_cons {c : Channel} {rest : List Envelope} (hc : r.channels[j]? = some c)
    (hq : c.queue = e :: rest) :
    r.receive? j = some (e, { r with channels := r.channels.set j { c with queue := rest } }) := by
  simp [receive?, hc, Channel.receive?, hq]

theorem receive?_nil {c : Channel} (hc : r.channels[j]? = some c) (hq : c.queue = []) :
    r.receive? j = none := by
  simp [receive?, hc, Channel.receive?, hq]

/-! ## Publications -/

/-- The channels that an envelope published on the address is added to. -/
def takers (r : Router) (address : Address) : List Nat := (r.table.route address).filterMap r.target?

/-- **A publication adds the envelope to its takers' channels and to no other, and says how many they are.** -/
theorem publish_eq (hr : (r.table.route address).Nodup) (hs : r.Separate) (e : Envelope) :
    (r.publish address e).1 = (r.takers address).length ∧ (r.publish address e).2.table = r.table ∧
      (r.publish address e).2.handles = r.handles ∧
        (r.publish address e).2.channels = r.channels.mapIdx fun j c =>
          if j ∈ r.takers address then c.push e else c :=
  sendAll_eq (r := r.countReceived e) hr hs e

theorem nodup_takers (hr : (r.table.route address).Nodup) (hs : r.Separate) : (r.takers address).Nodup :=
  hr.filterMap fun _ _ _ h h' => target?_inj hs h h'

end Router

end FeedFiler
