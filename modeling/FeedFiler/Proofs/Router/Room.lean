import FeedFiler.Proofs.Router.Counting

/-!
# Publishing when there is room

When no open channel that an envelope is for is full, a publication that waits for full channels has
nothing to wait for. It then does what a publication does that never waits.
-/

namespace FeedFiler.Router

variable {r : Router} {id other : RouteId} {ids : List RouteId} {j allowed : Nat} {e : Envelope}
  {address : Address}

/-- Every open channel of a route that subscribed to the address has a free slot. -/
def HasRoomFor (r : Router) (address : Address) : Prop :=
  ∀ id ∈ r.table.route address, ∀ c, r.channelOf? id = some c → c.closed = false → 0 < c.free

theorem refuses_eq_false_iff :
    r.refuses id = false ↔ ∀ c, r.channelOf? id = some c → c.closed = false → 0 < c.free := by
  rw [refuses]
  cases r.channelOf? id with
  | none => simp
  | some c => simp [Nat.pos_iff_ne_zero]

/-- A send fills no channel but the one of its route. -/
theorem refuses_push (hs : r.Separate) (hj : r.target? id = some j) (hne : other ≠ id) (e : Envelope) :
    (r.push e j).refuses other = r.refuses other := by
  obtain ⟨handle, c, hh, rfl, -, -⟩ := target?_eq_some.1 hj
  rw [refuses, refuses, channelOf?, channelOf?]
  cases ho : r.handles[other]? with
  | none => simp [push, ho]
  | some handle' =>
      have hch : handle.channel ≠ handle'.channel := fun he => hne (hs _ _ _ _ ho hh he.symm)
      simp [push, ho, List.getElem?_modify, hch]

theorem offer_of_not_refuses (ht : r.target? id = none) (hroom : r.refuses id = false) (e : Envelope) :
    r.offer e id = (.failed, r) := by
  obtain ⟨hsent, hr⟩ := offer_of_target_eq_none ht e
  have hfull : (r.offer e id).1 ≠ .full := by
    rw [Ne, offer_eq_full, hroom]
    exact Bool.false_ne_true
  refine Prod.ext ?_ hr
  cases hd : (r.offer e id).1 with
  | sent => exact absurd hd hsent
  | full => exact absurd hd hfull
  | failed => rfl

/-- With room for all sends, serving the routes is sending to them. A route is served once, so that no send
takes the slot of another one. -/
theorem serve_eq_sendAll (hn : ids.Nodup) (hs : r.Separate) (hroom : ∀ id ∈ ids, r.refuses id = false)
    (hle : ids.length ≤ allowed) (delivered : Nat) :
    serve e ids allowed delivered r = (([], delivered + (sendAll e ids r).1), (sendAll e ids r).2) := by
  induction ids generalizing r allowed delivered with
  | nil => rfl
  | cons id ids ih =>
      obtain ⟨hid, hn⟩ := List.nodup_cons.1 hn
      rw [List.forall_mem_cons] at hroom
      rw [List.length_cons] at hle
      rw [sendAll_cons]
      cases ht : r.target? id with
      | none =>
          have ho := offer_of_not_refuses ht hroom.1 e
          have hs' : (r.countSend .failed).Separate := by
            rw [Separate, countSend_handles]
            exact hs
          have hroom' : ∀ id ∈ ids, (r.countSend .failed).refuses id = false := hroom.2
          have hserve : serve e (id :: ids) allowed delivered r =
              serve e ids allowed delivered (r.countSend .failed) := serve.eq_2 _ _ _ _ _ _ _ ho
          rw [hserve, ho, ih hn hs' hroom' (by omega), if_neg (show Delivery.failed ≠ .sent by decide),
            Nat.zero_add]
      | some j =>
          have ho := offer_of_target ht e
          obtain ⟨allowed, rfl⟩ := Nat.exists_eq_add_of_lt (Nat.lt_of_lt_of_le (Nat.succ_pos _) hle)
          have hs' : ((r.push e j).countSend .sent).Separate := hs
          have hroom' : ∀ other ∈ ids, ((r.push e j).countSend .sent).refuses other = false := by
            intro other hm
            have hne : other ≠ id := fun he => hid (he ▸ hm)
            exact (refuses_push hs ht hne e).trans (hroom.2 other hm)
          have hserve : serve e (id :: ids) (0 + allowed + 1) delivered r =
              serve e ids (0 + allowed) (delivered + 1) ((r.push e j).countSend .sent) :=
            serve.eq_3 _ _ _ _ _ _ _ ho
          rw [hserve, ho, ih hn hs' hroom' (by omega), if_pos rfl, Nat.add_assoc]

/-- **Both forms of publishing agree when there is room.** Without waiting, the form that waits serves all
routes, delivers the envelope to as many filers, counts the same and leaves the same queues. -/
theorem advance_eq_publish (ht : r.table.Made) (hs : r.Separate) (hroom : r.HasRoomFor address)
    (e : Envelope) :
    (r.startPublishing address e).2.advance (r.startPublishing address e).1 =
      (⟨e, [], (r.publish address e).1⟩, (r.publish address e).2) := by
  have hroom' : ∀ id ∈ r.table.route address, (r.countReceived e).refuses id = false := by
    intro id hm
    exact refuses_eq_false_iff.2 (hroom id hm)
  have hserve := serve_eq_sendAll (r := r.countReceived e) (e := e) (ht.nodup_route address) hs hroom'
    (Nat.le_refl _) 0
  rw [Nat.zero_add] at hserve
  simp only [advance, advanceUpTo, startPublishing, hserve]
  rfl

/-- Of four routes, two have filers with room, one has none, and the filer of one is gone. One of the routes
subscribed twice, and one filer waits with an envelope. -/
theorem advance_eq_publish_mixed :
    let table := (((({} : RoutingTable).subscribe ⟨"a"⟩ (.ofNat 0)).subscribe ⟨"a"⟩ (.ofNat 1)).subscribe
      ⟨"a"⟩ (.ofNat 2)).subscribe ⟨"a"⟩ (.ofNat 3) |>.subscribe ⟨"a"⟩ (.ofNat 0) |>.subscribe ⟨"b"⟩ (.ofNat 3)
    let r := (History.run table [.register (.ofNat 0) "r" 1, .register (.ofNat 2) "s" 1, .leave 1,
      .register (.ofNat 3) "t" 2, .publish ⟨"b"⟩ { moduleId := "old" }]).router
    let e : Envelope := { moduleId := "new" }
    let waited := (r.startPublishing ⟨"a"⟩ e).2.advance (r.startPublishing ⟨"a"⟩ e).1
    r.table.Made ∧ r.Separate ∧ r.HasRoomFor ⟨"a"⟩ ∧ (r.publish ⟨"a"⟩ e).1 = 2 ∧
      waited.1.delivered = 2 ∧ waited.1.remaining = [] ∧ waited.2 = (r.publish ⟨"a"⟩ e).2 ∧
      waited.2.channels.map (fun c => c.queue.map Envelope.moduleId) = [["new"], [], ["old", "new"]] ∧
      waited.2.counters = { received := 2, routed := 2, sent := 3, failed := 2 } := by
  intro table r e waited
  have ht : table.Made := (((((RoutingTable.Made.empty.subscribe _ _).subscribe _ _).subscribe _ _).subscribe
    _ _).subscribe _ _).subscribe _ _
  have hs : r.Separate := (History.sound_run ht _).separate
  have hroom : r.HasRoomFor ⟨"a"⟩ := by
    intro id hm
    rw [← refuses_eq_false_iff]
    revert id
    decide +kernel
  have hcount : (r.publish ⟨"a"⟩ e).1 = 2 := by decide +kernel
  have hforms : waited = (⟨e, [], (r.publish ⟨"a"⟩ e).1⟩, (r.publish ⟨"a"⟩ e).2) :=
    advance_eq_publish ht hs hroom e
  rw [hforms]
  exact ⟨ht, hs, hroom, hcount, hcount, rfl, rfl, by decide +kernel, by decide +kernel⟩

end FeedFiler.Router
