import FeedFiler.Proofs.Bus.Refinement
import FeedFiler.Proofs.Filer.Outstanding
import FeedFiler.Run.Ingest

/-!
# An ingest under any schedule

The one who ingests reads payload files and publishes their envelopes, and the loops of the filers and their
writes have turns in between, in any order. What was published is in parts at each filer: received, queued in
its channel, and still to be sent.
-/

namespace FeedFiler.Ingest

open Bus (Wired due)

/-! ## The system -/

/-- A filer at work: its loop, which has the message that it has just received, and what it has received and
its writes have returned so far. -/
structure Station where
  worker : Worker
  loop : Loop := { due := [] }
  received : List Envelope := []
  results : List (Nat × Except StoreError String) := []

namespace Station

def act (a : Station) : Station :=
  { a with loop := (a.loop.act a.worker).1, worker := (a.loop.act a.worker).2 }

def receive (a : Station) (e : Envelope) : Station :=
  { a with received := a.received ++ [e], loop := { a.loop with due := [e.toDocument] } }.act

/-- The messages that the filer has received. -/
def messages (a : Station) : List Document := a.received.map Envelope.toDocument

/-- The filer among the files. -/
def filing (a : Station) (files : FileTree) : Filing Loop where
  worker := a.worker
  giver := a.loop
  files
  results := a.results

end Station

/-- Whose turn it is. -/
inductive Turn where
  | publisher
  | filer (i : Nat)
  /-- The `n`-th write of a filer. -/
  | write (i n : Nat)
  /-- Others change the files. -/
  | others (change : FileTree → FileTree)

/-- An ingest at work. -/
structure Underway where
  router : Router
  /-- The payload files that are still to be read. -/
  arrivals : List Arrival
  /-- The envelope that was read and is to be published. -/
  envelope : Option Envelope := none
  publication : Option Router.Publication := none
  /-- The envelopes that were published, and how many filers got them. -/
  reported : List (Envelope × Nat) := []
  /-- The filers in the order in which they were registered. -/
  stations : List Station
  files : FileTree
  /-- How the reading ended. The channels have no sender any more. -/
  ended : Option (Except RunError Unit) := none

/-- The payload files are to be ingested on a bus. -/
def underway (b : Bus) (arrivals : List Arrival) : Underway where
  router := b.router
  arrivals
  stations := b.filers.map fun f => { worker := { filer := f } }
  files := b.files

namespace Underway

/-- A turn of the one who ingests. It goes on with a publication, and waits when the channel of the next route
is full; or it publishes the envelope that it has read; or it reads the next file. -/
def publish (feed : Feed) (s : Underway) : Underway :=
  if s.ended.isSome then s
  else match s.publication, s.envelope with
    | some ⟨e, [], delivered⟩, _ => { s with
        router := s.router.countDone delivered
        publication := none
        reported := s.reported ++ [(e, delivered)] }
    | some ⟨e, id :: ids, delivered⟩, _ =>
      match s.router.offer e id with
      | (.full, _) => s
      | (.sent, r) => { s with router := r.countSend .sent, publication := some ⟨e, ids, delivered + 1⟩ }
      | (.failed, r) => { s with router := r.countSend .failed, publication := some ⟨e, ids, delivered⟩ }
    | none, some e => { s with
        router := (s.router.startPublishing feed.address e).2
        publication := some (s.router.startPublishing feed.address e).1
        envelope := none }
    | none, none =>
      match s.arrivals with
      | [] => { s with ended := some (.ok ()) }
      | arrival :: arrivals =>
        match envelopeOf feed s.files arrival with
        | .error cause => { s with ended := some (.error cause) }
        | .ok e => { s with arrivals, envelope := some e }

/-- A turn of a filer's loop. It waits when there is nothing to receive and there still is a sender. -/
def work (s : Underway) (i : Nat) : Underway :=
  match s.stations[i]? with
  | none => s
  | some a =>
    match a.loop.phase with
    | .receiving =>
      match s.router.receive? i with
      | some (e, router) => { s with router, stations := s.stations.set i (a.receive e) }
      | none => if s.ended.isSome then { s with stations := s.stations.set i a.act } else s
    | _ => { s with stations := s.stations.set i a.act }

def write (trouble : Nat → Nat → Trouble) (s : Underway) (i n : Nat) : Underway :=
  match s.stations[i]? with
  | none => s
  | some a =>
    let (worker, files) := a.worker.proceedUnder (trouble i) n s.files
    { s with
      stations := s.stations.set i { a with worker, results := a.results ++ a.worker.returned n worker }
      files }

def turn (feed : Feed) (trouble : Nat → Nat → Trouble) (s : Underway) : Turn → Underway
  | .publisher => s.publish feed
  | .filer i => s.work i
  | .write i n => s.write trouble i n
  | .others change => { s with files := change s.files }

def run (feed : Feed) (trouble : Nat → Nat → Trouble) (s : Underway) (schedule : List Turn) : Underway :=
  schedule.foldl (turn feed trouble) s

/-- What the ingest returns: at once if a file cannot be read, else when all filers have ended. -/
def result? (s : Underway) : Option (Except RunError (List (String × FilerCounters))) :=
  match s.ended with
  | none => none
  | some (.error cause) => some (.error cause)
  | some (.ok ()) =>
    if s.stations.all fun a => a.worker.snapshot.isSome then
      some (.ok (s.stations.filterMap fun a =>
        a.worker.snapshot.map fun counters => (a.worker.filer.rule.name, counters)))
    else none

end Underway

/-- Some schedule leads from one state to the other. -/
def Leads (feed : Feed) (trouble : Nat → Nat → Trouble) (s s' : Underway) : Prop :=
  ∃ schedule, s.run feed trouble schedule = s'

/-- No write goes wrong. -/
def calm : Nat → Nat → Trouble := fun _ _ => .calm

/-! ## The invariant -/

/-- How many filers an envelope of the feed is for. -/
def subscribed (filers : List Filer) (feed : Feed) : Nat := filers.countP (·.rule.source = feed.address)

/-- The envelopes that were published for a filer, the one that is being published included. -/
def Underway.sent (s : Underway) (feed : Feed) (f : Filer) : List Envelope :=
  if f.rule.source = feed.address then
    s.reported.map Prod.fst ++ (s.publication.map Router.Publication.envelope).toList
  else []

/-- The loop does not receive any more. -/
def hasLeft (l : Loop) : Bool :=
  match l.phase with
  | .awaiting _ | .ended => true
  | _ => false

/-- What was sent to a filer is in parts received, queued and due, and the filer's loop is sound. It does not
leave before the senders have hung up and its channel is empty. -/
structure Attends (f : Filer) (sent due : List Envelope) (hungUp : Bool) (c : Channel) (a : Station) : Prop where
  isOpen : c.closed = false
  capacity : 0 < c.capacity
  parts : a.received ++ c.queue ++ due = sent
  sound : a.loop.Sound f a.messages a.results a.worker
  idle : a.loop.due = []
  left : hasLeft a.loop = true → hungUp = true ∧ c.queue = []

/-- The envelopes so far have been published, and each filer attends to those for it. -/
structure Sound (filers : List Filer) (feed : Feed) (total : Nat) (s : Underway) : Prop where
  wired : Wired filers s.router
  stations : s.stations.length = filers.length
  remaining : ∀ p, s.publication = some p → p.remaining.Nodup ∧
    (∀ id ∈ p.remaining, ∃ (i : Nat) (f : Filer), filers[i]? = some f ∧ id = .ofNat i) ∧
      p.delivered + p.remaining.length = subscribed filers feed
  reported : ∀ call ∈ s.reported, call.2 = subscribed filers feed
  ended : s.ended.isSome = true → s.publication = none ∧ s.envelope = none
  complete : ∀ outcome, s.ended = some outcome → (outcome = .ok () ↔ s.arrivals = [])
  counted : s.reported.length + s.publication.toList.length + s.envelope.toList.length + s.arrivals.length = total
  attends : ∀ (i : Nat) f, filers[i]? = some f → ∃ c a, s.router.channels[i]? = some c ∧
    s.stations[i]? = some a ∧ Attends f (s.sent feed f) (due s.publication i) s.ended.isSome c a

variable {filers : List Filer} {feed : Feed} {total : Nat} {s : Underway} {f : Filer} {c : Channel} {a : Station}
  {i : Nat} {sent now : List Envelope} {hungUp : Bool} {e : Envelope}

/-! ## One filer -/

theorem Attends.send (h : Attends f sent [e] false c a) :
    Attends f sent [] false { c with queue := c.queue ++ [e] } a := by
  refine ⟨h.isOpen, h.capacity, ?_, h.sound, h.idle, fun hl => ?_⟩
  · rw [← h.parts]
    simp
  · cases (h.left hl).1

theorem Attends.hangUp (h : Attends f sent now hungUp c a) : Attends f sent now true c a :=
  ⟨h.isOpen, h.capacity, h.parts, h.sound, h.idle, fun hl => ⟨rfl, (h.left hl).2⟩⟩

theorem Attends.receive {rest : List Envelope} (h : Attends f sent now hungUp c a)
    (hp : a.loop.phase = .receiving) (hq : c.queue = e :: rest) :
    Attends f sent now hungUp { c with queue := rest } (a.receive e) := by
  obtain ⟨worker, ⟨loopDue, kept, phase⟩, received, results⟩ := a
  obtain ⟨hopen, hcapacity, hparts, ⟨⟨heard, ha, hall⟩, hlinked, hhandles, hfits⟩, hidle, hleft⟩ := h
  cases hp
  cases hidle
  refine ⟨hopen, hcapacity, ?_, Loop.Sound.act ⟨⟨heard, ha, ?_⟩, hlinked, hhandles, hfits⟩, rfl, nofun⟩
  · simp only [Station.receive, Station.act]
    rw [← hparts, hq]
    simp
  · simp only [Loop.unheard, List.append_nil] at hall ⊢
    rw [hall]
    simp [Station.messages, Station.receive, Station.act]

theorem due_act {l : Loop} (h : l.due = []) (k : Worker) : (l.act k).1.due = [] := by
  obtain ⟨due, kept, phase⟩ := l
  cases h
  cases phase with
  | receiving => rfl
  | checking message unchecked => cases unchecked <;> rfl
  | storing =>
      simp only [Loop.act]
      split <;> rfl
  | awaiting left =>
      cases left with
      | nil => rfl
      | cons n left =>
          simp only [Loop.act]
          split <;> rfl
  | ended => rfl

/-- A loop leaves when it has nothing to receive. -/
theorem hasLeft_act {l : Loop} {k : Worker} (h : hasLeft (l.act k).1 = true) :
    hasLeft l = true ∨ l.phase = .receiving := by
  obtain ⟨due, kept, phase⟩ := l
  cases phase with
  | receiving => exact .inr rfl
  | checking message unchecked => cases unchecked <;> cases h
  | storing =>
      simp only [Loop.act] at h
      split at h <;> cases h
  | awaiting left => exact .inl rfl
  | ended => exact .inl rfl

theorem Attends.act (h : Attends f sent now hungUp c a)
    (hp : a.loop.phase = .receiving → hungUp = true ∧ c.queue = []) : Attends f sent now hungUp c a.act :=
  ⟨h.isOpen, h.capacity, h.parts, h.sound.act, due_act h.idle a.worker, fun hl => (hasLeft_act hl).elim h.left hp⟩

theorem Attends.write (h : Attends f sent now hungUp c a) (trouble : Nat → Trouble) (n : Nat) (t : FileTree) :
    Attends f sent now hungUp c { a with
      worker := (a.worker.proceedUnder trouble n t).1
      results := a.results ++ a.worker.returned n (a.worker.proceedUnder trouble n t).1 } :=
  ⟨h.isOpen, h.capacity, h.parts, h.sound.proceed trouble n t, h.idle, h.left⟩

/-! ## The publisher -/

theorem length_subscribers (routes : List (String × Address)) (address : Address) :
    (RoutingBuilder.subscribers routes address).length = routes.countP (·.2 = address) := by
  induction routes using List.reverseRecOn with
  | nil => rfl
  | append_singleton routes route ih =>
      obtain ⟨name, a⟩ := route
      rw [RoutingBuilder.subscribers_concat, List.length_append, ih, List.countP_append, List.countP_singleton]
      by_cases ha : a = address <;> simp [ha]

theorem length_route {r : Router} (h : Wired filers r) (feed : Feed) :
    (r.table.route feed.address).length = subscribed filers feed := by
  rw [h.route, length_subscribers, Bus.routesOf, List.countP_map]
  rfl

theorem Sound.read (h : Sound filers feed total s) (hn : s.ended = none) (hp : s.publication = none)
    (he : s.envelope = none) {arrival : Arrival} {arrivals : List Arrival}
    (ha : s.arrivals = arrival :: arrivals) (e : Envelope) :
    Sound filers feed total { s with arrivals, envelope := some e } := by
  refine ⟨h.wired, h.stations, h.remaining, h.reported, ?_, ?_, ?_, h.attends⟩
  · simp [hn]
  · simp [hn]
  · have := h.counted
    simp only [hp, he, ha, Option.toList_none, Option.toList_some, List.length_cons, List.length_nil] at this ⊢
    omega

/-- The reading ends, and nobody sends any more. -/
theorem Sound.hangUp (h : Sound filers feed total s) (hp : s.publication = none) (he : s.envelope = none)
    {outcome : Except RunError Unit} (ha : outcome = .ok () ↔ s.arrivals = []) :
    Sound filers feed total { s with ended := some outcome } := by
  refine ⟨h.wired, h.stations, h.remaining, h.reported, fun _ => ⟨hp, he⟩, ?_, h.counted, fun i f hi => ?_⟩
  · rintro _ ⟨⟩
    exact ha
  · obtain ⟨c, a, hc, hs, hat⟩ := h.attends i f hi
    exact ⟨c, a, hc, hs, hat.hangUp⟩

theorem Sound.start (h : Sound filers feed total s) (hn : s.ended = none) (hp : s.publication = none)
    (he : s.envelope = some e) :
    Sound filers feed total { s with
      router := (s.router.startPublishing feed.address e).2
      publication := some (s.router.startPublishing feed.address e).1
      envelope := none } := by
  refine ⟨h.wired.of_eq rfl rfl, h.stations, ?_, h.reported, ?_, ?_, ?_, fun i f hi => ?_⟩
  · rintro p ⟨⟩
    refine ⟨Bus.nodup_route h.wired feed.address, fun id hid => ?_, ?_⟩
    · obtain ⟨i, f, hi, -, hid⟩ := (Bus.mem_route h.wired).1 hid
      exact ⟨i, f, hi, hid⟩
    · rw [← length_route h.wired feed]
      exact Nat.zero_add _
  · simp [hn]
  · simp [hn]
  · have := h.counted
    simp only [hp, he, Option.toList_none, Option.toList_some, List.length_cons, List.length_nil] at this ⊢
    omega
  · obtain ⟨c, a, hc, hs, hat⟩ := h.attends i f hi
    refine ⟨c, a, hc, hs, hat.isOpen, hat.capacity, ?_, hat.sound, hat.idle, hat.left⟩
    have hparts := hat.parts
    have hmem := Bus.ofNat_mem_route h.wired hi (a := feed.address)
    rw [hp, due, List.append_nil] at hparts
    rw [hparts]
    by_cases ha : f.rule.source = feed.address
    · have hd : due (some (s.router.startPublishing feed.address e).1) i = [e] := if_pos (hmem.2 ha)
      simp only [Underway.sent, if_pos ha, hp, hd]
      rw [Option.map_none, Option.toList_none, List.append_nil]
      rfl
    · have hd : due (some (s.router.startPublishing feed.address e).1) i = [] := if_neg (mt hmem.1 ha)
      simp only [Underway.sent, if_neg ha, hd, List.append_nil]

theorem Sound.serve {ids : List RouteId} {delivered j : Nat} {g : Filer} (h : Sound filers feed total s)
    (hn : s.ended = none) (hp : s.publication = some ⟨e, .ofNat j :: ids, delivered⟩)
    (hj : filers[j]? = some g) (hc : s.router.channels[j]? = some c) :
    Sound filers feed total { s with
      router := { s.router with
        channels := s.router.channels.set j { c with queue := c.queue ++ [e] } }.countSend .sent
      publication := some ⟨e, ids, delivered + 1⟩ } := by
  obtain ⟨hnodup, hids, hcount⟩ := h.remaining _ hp
  obtain ⟨hnj, hnodup⟩ := List.nodup_cons.1 hnodup
  refine ⟨h.wired.of_eq rfl rfl, h.stations, ?_, h.reported, ?_, ?_, ?_, fun i f hi => ?_⟩
  · rintro p ⟨⟩
    refine ⟨hnodup, fun id hid => hids id (List.mem_cons_of_mem _ hid), ?_⟩
    simp only [List.length_cons] at hcount ⊢
    omega
  · simp [hn]
  · simp [hn]
  · have := h.counted
    rwa [hp] at this
  · obtain ⟨c', a, hc', hs, hat⟩ := h.attends i f hi
    have hset : (Router.countSend { s.router with
        channels := s.router.channels.set j { c with queue := c.queue ++ [e] } } .sent).channels =
          s.router.channels.set j { c with queue := c.queue ++ [e] } := rfl
    have hsent : s.sent feed f = Underway.sent { s with
        router := { s.router with
          channels := s.router.channels.set j { c with queue := c.queue ++ [e] } }.countSend .sent
        publication := some ⟨e, ids, delivered + 1⟩ } feed f := by
      simp only [Underway.sent, hp]
      rfl
    rw [hsent, hn, hp] at hat
    -- The envelope is in the channel of one filer now, and is as due to the others as it was.
    by_cases hij : j = i
    · subst hij
      rw [hc] at hc'
      cases hc'
      rw [due, if_pos List.mem_cons_self] at hat
      refine ⟨{ c with queue := c.queue ++ [e] }, a, ?_, hs, ?_⟩
      · rw [hset, List.getElem?_set_self (List.getElem?_eq_some_iff.1 hc).1]
      · rw [due, if_neg hnj, hn]
        exact hat.send
    · refine ⟨c', a, ?_, hs, ?_⟩
      · rw [hset, List.getElem?_set_ne hij]
        exact hc'
      · have hne : RouteId.ofNat i ≠ .ofNat j := fun ho =>
          hij ((Bus.ofNat_inj_of_getElem? h.wired.le hi hj).1 ho).symm
        simp only [due, List.mem_cons, hne, false_or, hn] at hat ⊢
        exact hat

theorem Sound.report {delivered : Nat} (h : Sound filers feed total s) (hn : s.ended = none)
    (hp : s.publication = some ⟨e, [], delivered⟩) :
    Sound filers feed total { s with
      router := s.router.countDone delivered
      publication := none
      reported := s.reported ++ [(e, delivered)] } := by
  refine ⟨h.wired.of_eq rfl rfl, h.stations, nofun, ?_, ?_, ?_, ?_, fun i f hi => ?_⟩
  · intro call hcall
    rcases List.mem_append.1 hcall with hcall | hcall
    · exact h.reported call hcall
    · rw [List.mem_singleton.1 hcall]
      exact (h.remaining _ hp).2.2
  · simp [hn]
  · simp [hn]
  · have := h.counted
    simp only [hp, Option.toList_none, Option.toList_some, List.length_append, List.length_cons,
      List.length_nil] at this ⊢
    omega
  · obtain ⟨c, a, hc, hs, hat⟩ := h.attends i f hi
    have hsent : s.sent feed f = Underway.sent { s with
        router := s.router.countDone delivered
        publication := none
        reported := s.reported ++ [(e, delivered)] } feed f := by
      simp [Underway.sent, hp]
    rw [hsent, hp] at hat
    exact ⟨c, a, hc, hs, hat⟩

theorem Sound.publish (h : Sound filers feed total s) : Sound filers feed total (s.publish feed) := by
  rw [Underway.publish]
  split
  · exact h
  next hn =>
  rw [Option.not_isSome_iff_eq_none] at hn
  split
  · next e delivered hp => exact h.report hn hp
  · next e id ids delivered hp =>
      obtain ⟨j, g, hj, rfl⟩ := (h.remaining _ hp).2.1 _ List.mem_cons_self
      obtain ⟨c, a, hc, -, hat⟩ := h.attends j g hj
      rw [h.wired.offer hj hc hat.isOpen e]
      by_cases hf : c.free = 0
      · rw [if_pos hf]
        exact h
      · rw [if_neg hf]
        exact h.serve hn hp hj hc
  · next e hp he => exact h.start hn hp he
  · next hp he =>
      split
      · next ha => exact h.hangUp hp he (iff_of_true rfl ha)
      · next arrival arrivals ha =>
          split
          · exact h.hangUp hp he (iff_of_false nofun fun hnil => by simp [ha] at hnil)
          · next e _ => exact h.read hn hp he ha e

/-! ## The filers and their writes -/

theorem Sound.stations_none (h : Sound filers feed total s) (hi : filers[i]? = none) : s.stations[i]? = none := by
  rw [List.getElem?_eq_none_iff, h.stations]
  exact List.getElem?_eq_none_iff.1 hi

/-- Something happens to one filer and its channel. -/
theorem Sound.set (h : Sound filers feed total s) (hi : filers[i]? = some f) {r : Router} (hw : Wired filers r)
    (hch : ∀ j, j ≠ i → r.channels[j]? = s.router.channels[j]?) (hc : r.channels[i]? = some c)
    (ha : Attends f (s.sent feed f) (due s.publication i) s.ended.isSome c a) (files : FileTree) :
    Sound filers feed total { s with router := r, stations := s.stations.set i a, files } := by
  have hil : i < s.stations.length := by
    rw [h.stations]
    exact (List.getElem?_eq_some_iff.1 hi).1
  refine ⟨hw, ?_, h.remaining, h.reported, h.ended, h.complete, h.counted, fun j g hj => ?_⟩
  · rw [List.length_set]
    exact h.stations
  · by_cases hij : j = i
    · subst hij
      rw [hi] at hj
      cases hj
      exact ⟨c, a, hc, List.getElem?_set_self hil, ha⟩
    · obtain ⟨c', a', hc', hs', hat'⟩ := h.attends j g hj
      refine ⟨c', a', ?_, ?_, hat'⟩
      · rw [hch j hij]
        exact hc'
      · rw [List.getElem?_set_ne (Ne.symm hij)]
        exact hs'

theorem Sound.work (h : Sound filers feed total s) (i : Nat) : Sound filers feed total (s.work i) := by
  rw [Underway.work]
  cases hi : filers[i]? with
  | none =>
      rw [h.stations_none hi]
      exact h
  | some f =>
      obtain ⟨c, a, hc, hs, hat⟩ := h.attends i f hi
      simp only [hs]
      have hact (hp : a.loop.phase = .receiving → s.ended.isSome = true ∧ c.queue = []) :
          Sound filers feed total { s with stations := s.stations.set i a.act } :=
        h.set hi h.wired (fun _ _ => rfl) hc (hat.act hp) s.files
      split
      · next hp =>
          cases hq : c.queue with
          | cons e rest =>
              simp only [Router.receive?_cons hc hq]
              have hw : Wired filers { s.router with
                  channels := s.router.channels.set i { c with queue := rest } } := h.wired.of_eq rfl rfl
              refine h.set hi hw (fun j hj => ?_) ?_ (hat.receive hp hq) s.files
              · exact List.getElem?_set_ne (Ne.symm hj)
              · exact List.getElem?_set_self (List.getElem?_eq_some_iff.1 hc).1
          | nil =>
              simp only [Router.receive?_nil hc hq]
              split
              · next hended => exact hact fun _ => ⟨hended, hq⟩
              · exact h
      · next hp => exact hact fun hr => absurd hr hp

theorem Sound.write (h : Sound filers feed total s) (trouble : Nat → Nat → Trouble) (i n : Nat) :
    Sound filers feed total (s.write trouble i n) := by
  rw [Underway.write]
  cases hi : filers[i]? with
  | none =>
      rw [h.stations_none hi]
      exact h
  | some f =>
      obtain ⟨c, a, hc, hs, hat⟩ := h.attends i f hi
      simp only [hs]
      exact h.set hi h.wired (fun _ _ => rfl) hc (hat.write (trouble i) n s.files) _

/-! ## Runs -/

theorem Sound.turn (h : Sound filers feed total s) (trouble : Nat → Nat → Trouble) (turn : Turn) :
    Sound filers feed total (s.turn feed trouble turn) := by
  cases turn with
  | publisher => exact h.publish
  | filer i => exact h.work i
  | write i n => exact h.write trouble i n
  | others change =>
      exact ⟨h.wired, h.stations, h.remaining, h.reported, h.ended, h.complete, h.counted, h.attends⟩

theorem Sound.run (h : Sound filers feed total s) (trouble : Nat → Nat → Trouble) (schedule : List Turn) :
    Sound filers feed total (s.run feed trouble schedule) := by
  induction schedule generalizing s with
  | nil => exact h
  | cons turn schedule ih => exact ih (h.turn trouble turn)

theorem Leads.refl (feed : Feed) (trouble : Nat → Nat → Trouble) (s : Underway) : Leads feed trouble s s :=
  ⟨[], rfl⟩

theorem Leads.trans {trouble : Nat → Nat → Trouble} {s' s'' : Underway} (h : Leads feed trouble s s')
    (h' : Leads feed trouble s' s'') : Leads feed trouble s s'' := by
  obtain ⟨schedule, rfl⟩ := h
  obtain ⟨more, rfl⟩ := h'
  exact ⟨schedule ++ more, List.foldl_append⟩

theorem leads_publish (feed : Feed) (trouble : Nat → Nat → Trouble) (s : Underway) :
    Leads feed trouble s (s.publish feed) := ⟨[.publisher], rfl⟩

theorem leads_work (feed : Feed) (trouble : Nat → Nat → Trouble) (s : Underway) (i : Nat) :
    Leads feed trouble s (s.work i) := ⟨[.filer i], rfl⟩

theorem leads_write (feed : Feed) (trouble : Nat → Nat → Trouble) (s : Underway) (i n : Nat) :
    Leads feed trouble s (s.write trouble i n) := ⟨[.write i n], rfl⟩

theorem Sound.leads {trouble : Nat → Nat → Trouble} {s' : Underway} (h : Sound filers feed total s)
    (hl : Leads feed trouble s s') : Sound filers feed total s' := by
  obtain ⟨schedule, rfl⟩ := hl
  exact h.run trouble schedule

theorem sound_underway {queueSize : Nat} {t : FileTree} {b : Bus} (h : Bus.start filers queueSize t = .ok b)
    (feed : Feed) (arrivals : List Arrival) : Sound filers feed arrivals.length (underway b arrivals) := by
  obtain ⟨hfilers, -, hw, hch⟩ := Bus.wired_of_start h
  refine ⟨hw, ?_, fun p hp => ?_, List.forall_mem_nil _, fun he => ?_, fun outcome ho => ?_, by simp [underway],
    fun i f hi => ?_⟩
  · rw [underway, hfilers, List.length_map]
  · cases hp
  · cases he
  · cases ho
  · refine ⟨{ capacity := max queueSize 1 }, { worker := { filer := f } }, ?_, ?_, rfl, ?_, ?_, ?_, rfl, fun hl => ?_⟩
    · show b.router.channels[i]? = _
      rw [hch, List.getElem?_replicate, if_pos (List.getElem?_eq_some_iff.1 hi).1]
    · show (b.filers.map _)[i]? = _
      rw [hfilers, List.getElem?_map, hi]
      rfl
    · exact Nat.lt_of_lt_of_le Nat.one_pos (Nat.le_max_right _ _)
    · simp [Underway.sent, underway, due]
    · refine ⟨⟨[], Worker.accounted_start f, rfl⟩, Worker.linked_start f, fun n task hn => ?_, rfl, rfl⟩
      cases hn
    · cases hl

end FeedFiler.Ingest
