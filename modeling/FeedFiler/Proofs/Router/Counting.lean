import Mathlib.Algebra.GroupWithZero.Nat
import FeedFiler.Proofs.Router.Delivery

/-!
# What a router counts

A router lives through registrations, publications, receipts and the closing of receivers in any order.
What it has counted fits together at any time between two publications, and tells what they returned.
-/

namespace FeedFiler.Router

variable {r r' : Router} {id : RouteId} {ids : List RouteId} {e : Envelope} {address : Address}

/-! ## Refusals -/

/-- The channel of the route is open and full. -/
def refuses (r : Router) (id : RouteId) : Bool := (r.channelOf? id).any fun c => !c.closed && c.free == 0

/-- How many sends are refused by an open and full channel when an envelope is sent to some routes. Each
send finds the channels as the sends before it have left them. -/
def refusals (e : Envelope) : List RouteId → Router → Nat
  | [], _ => 0
  | id :: ids, r => (if r.refuses id then 1 else 0) + refusals e ids (r.offer e id).2

theorem offer_eq_full : (r.offer e id).1 = .full ↔ r.refuses id = true := by
  rw [refuses, channelOf?, offer]
  cases r.handles[id]? with
  | none => simp
  | some handle =>
      cases hc : r.channels[handle.channel]? with
      | none => simp [hc]
      | some c => by_cases hclosed : c.closed <;> by_cases hfree : c.free = 0 <;> simp [hc, Channel.send, hclosed, hfree]

theorem offer_counters (r : Router) (e : Envelope) (id : RouteId) :
    (r.offer e id).2.counters = r.counters ∧ (r.offer e id).2.table = r.table := by
  rw [offer]
  split
  · exact ⟨rfl, rfl⟩
  · split
    · exact ⟨rfl, rfl⟩
    · split <;> exact ⟨rfl, rfl⟩

/-- What is sent does not depend on what is counted. -/
theorem offer_congr (hh : r'.handles = r.handles) (hc : r'.channels = r.channels) (e : Envelope)
    (id : RouteId) : (r'.offer e id).2.handles = (r.offer e id).2.handles ∧
      (r'.offer e id).2.channels = (r.offer e id).2.channels := by
  rw [offer, offer, hh]
  cases r.handles[id]? with
  | none => exact ⟨hh, hc⟩
  | some handle =>
      simp only [hc]
      cases r.channels[handle.channel]? with
      | none => exact ⟨hh, hc⟩
      | some c =>
          dsimp only
          cases c.send e with
          | ok c => exact ⟨rfl, rfl⟩
          | error refusal => cases refusal <;> exact ⟨hh, hc⟩

theorem refusals_congr (hh : r'.handles = r.handles) (hc : r'.channels = r.channels) :
    refusals e ids r' = refusals e ids r := by
  induction ids generalizing r r' with
  | nil => rfl
  | cons id ids ih =>
      have hrefuses : r'.refuses id = r.refuses id := by rw [refuses, refuses, channelOf?, channelOf?, hh, hc]
      obtain ⟨hh', hc'⟩ := offer_congr hh hc e id
      rw [refusals, refusals, hrefuses, ih hh' hc']

/-! ## What sends add -/

/-- Some sends have been counted, and nothing else. -/
structure Sends (c c' : RouterCounters) (sent failed refused : Nat) : Prop where
  received : c'.received = c.received
  routed : c'.routed = c.routed
  dropped : c'.dropped = c.dropped
  records : c'.records = c.records
  sent : c'.sent = c.sent + sent
  failed : c'.failed = c.failed + failed
  refused : c'.refused = c.refused + refused

theorem Sends.eq {c c' : RouterCounters} {sent failed refused : Nat} (h : Sends c c' sent failed refused) :
    c' = { c with
      sent := c.sent + sent
      failed := c.failed + failed
      refused := c.refused + refused } := by
  obtain ⟨received, routed, dropped, _, _, _, records⟩ := c'
  obtain ⟨rfl, rfl, rfl, rfl, rfl, rfl, rfl⟩ := h
  rfl

theorem Sends.refl (c : RouterCounters) : Sends c c 0 0 0 := ⟨rfl, rfl, rfl, rfl, rfl, rfl, rfl⟩

theorem Sends.trans {c c' c'' : RouterCounters} {sent sent' failed failed' refused refused' : Nat}
    (h : Sends c c' sent failed refused) (h' : Sends c' c'' sent' failed' refused') :
    Sends c c'' (sent + sent') (failed + failed') (refused + refused') :=
  ⟨h'.received.trans h.received, h'.routed.trans h.routed, h'.dropped.trans h.dropped,
    h'.records.trans h.records, by rw [h'.sent, h.sent, Nat.add_assoc],
    by rw [h'.failed, h.failed, Nat.add_assoc], by rw [h'.refused, h.refused, Nat.add_assoc]⟩

theorem sends_countSend (r : Router) (delivery : Delivery) :
    Sends r.counters (r.countSend delivery).counters (if delivery = .sent then 1 else 0)
      (if delivery = .sent then 0 else 1) (if delivery = .full then 1 else 0) := by
  cases delivery <;> exact ⟨rfl, rfl, rfl, rfl, rfl, rfl, rfl⟩

/-- One send to one route. -/
theorem sends_offer (r : Router) (e : Envelope) (id : RouteId) :
    Sends r.counters ((r.offer e id).2.countSend (r.offer e id).1).counters
      (if (r.offer e id).1 = .sent then 1 else 0) (if (r.offer e id).1 = .sent then 0 else 1)
      (if r.refuses id then 1 else 0) := by
  have h := sends_countSend (r.offer e id).2 (r.offer e id).1
  simpa only [(offer_counters r e id).1, offer_eq_full] using h

/-- Each route costs one send, which is counted as it ends. -/
theorem sends_sendAll (e : Envelope) (ids : List RouteId) (r : Router) :
    (sendAll e ids r).2.table = r.table ∧
      ∃ failed, Sends r.counters (sendAll e ids r).2.counters (sendAll e ids r).1 failed (refusals e ids r) ∧
        (sendAll e ids r).1 + failed = ids.length ∧ refusals e ids r ≤ failed := by
  induction ids generalizing r with
  | nil => exact ⟨rfl, 0, .refl _, rfl, Nat.le_refl 0⟩
  | cons id ids ih =>
      rw [sendAll_cons, refusals]
      obtain ⟨htable, failed, hsends, hlength, hle⟩ := ih ((r.offer e id).2.countSend (r.offer e id).1)
      have hrefusals : refusals e ids ((r.offer e id).2.countSend (r.offer e id).1) =
          refusals e ids (r.offer e id).2 :=
        refusals_congr (countSend_handles _ _) (countSend_channels _ _)
      rw [hrefusals] at hsends hle
      refine ⟨?_, _, (sends_offer r e id).trans hsends, ?_, ?_⟩
      · rw [htable, countSend_table, (offer_counters r e id).2]
      · rw [List.length_cons, ← hlength]
        split <;> omega
      · -- A send that is refused is one that fails.
        have hfull : r.refuses id = true → (r.offer e id).1 ≠ .sent := by
          rw [← offer_eq_full (e := e)]
          intro h
          simp [h]
        by_cases h : r.refuses id = true
        · rw [if_pos h, if_neg (hfull h)]
          omega
        · rw [if_neg h]
          omega

/-- A publication that waits counts the same, and is never refused. -/
theorem sends_serve (e : Envelope) (ids : List RouteId) (allowed delivered : Nat) (r : Router) :
    (serve e ids allowed delivered r).2.table = r.table ∧
      ∃ sent failed, Sends r.counters (serve e ids allowed delivered r).2.counters sent failed 0 ∧
        (serve e ids allowed delivered r).1.2 = delivered + sent ∧
          (serve e ids allowed delivered r).1.1.length + sent + failed = ids.length := by
  induction ids generalizing allowed delivered r with
  | nil => exact ⟨rfl, 0, 0, .refl _, rfl, rfl⟩
  | cons id ids ih =>
      have hone := sends_countSend (r.offer e id).2 (r.offer e id).1
      obtain ⟨hcounters, htable⟩ := offer_counters r e id
      rw [hcounters] at hone
      -- Where it has to wait, the routes that are left stay as they are.
      have hstay : ∃ sent failed, Sends r.counters r.counters sent failed 0 ∧
          delivered = delivered + sent ∧ (id :: ids).length + sent + failed = (id :: ids).length :=
        ⟨0, 0, .refl _, rfl, rfl⟩
      cases ho : r.offer e id with
      | mk delivery r₁ =>
          rw [ho] at hone htable
          cases delivery with
          | full =>
              simp only [serve, ho]
              exact ⟨trivial, hstay⟩
          | failed =>
              simp only [serve, ho]
              obtain ⟨htable', sent, failed, hsends, hdelivered, hlength⟩ :=
                ih allowed delivered (r₁.countSend .failed)
              refine ⟨htable'.trans (by rw [countSend_table, htable]), _, _, hone.trans hsends, ?_, ?_⟩
              · simpa using hdelivered
              · simp
                omega
          | sent =>
              cases allowed with
              | zero =>
                  simp only [serve, ho]
                  exact ⟨trivial, hstay⟩
              | succ allowed =>
                  simp only [serve, ho]
                  obtain ⟨htable', sent, failed, hsends, hdelivered, hlength⟩ :=
                    ih allowed (delivered + 1) (r₁.countSend .sent)
                  refine ⟨htable'.trans (by rw [countSend_table, htable]), _, _, hone.trans hsends, ?_, ?_⟩
                  · simpa [Nat.add_assoc] using hdelivered
                  · simp
                    omega

theorem countDone_counters (r : Router) (delivered : Nat) :
    (r.countDone delivered).counters = { r.counters with
      routed := r.counters.routed + if 0 < delivered then 1 else 0
      dropped := r.counters.dropped + if 0 < delivered then 0 else 1 } := by
  rw [countDone]
  split <;> rfl

theorem receive?_counters (r : Router) (channel : Nat) :
    ((r.receive? channel).elim r Prod.snd).table = r.table ∧
      ((r.receive? channel).elim r Prod.snd).counters = r.counters := by
  cases hr : r.receive? channel with
  | none => exact ⟨rfl, rfl⟩
  | some received =>
      simp only [receive?, Option.bind_eq_bind, Option.bind_eq_some_iff] at hr
      obtain ⟨c, -, rest, -, hr⟩ := hr
      cases hr
      exact ⟨rfl, rfl⟩

/-! ## Runs -/

/-- What is done with a router and its channels, one thing after the other. -/
inductive Act where
  /-- A filer gets a new channel, in place of the one that the route had. -/
  | register (id : RouteId) (name : String) (capacity : Nat)
  /-- A filer gets a channel that there is already, perhaps that of another filer. -/
  | share (id : RouteId) (name : String) (channel : Nat)
  | publish (address : Address) (e : Envelope)
  /-- Begins to publish and to wait for full channels. -/
  | publishBlocking (address : Address) (e : Envelope)
  /-- Goes on with the publication that waits, with at most so many sends. -/
  | advance (allowed : Nat)
  | receive (channel : Nat)
  /-- The receiver closes the channel: no envelope is added any more, and those in it can be received. -/
  | close (channel : Nat)
  /-- The receiver goes away. -/
  | leave (channel : Nat)

namespace Act

/-- The router itself is called, which is not done while a publication waits. -/
def isCall : Act → Bool
  | .register .. | .share .. | .publish .. | .publishBlocking .. => true
  | _ => false

def publication? : Act → Option (Address × Envelope)
  | .publish address e | .publishBlocking address e => some (address, e)
  | _ => none

end Act

/-- The publications among some acts. -/
def publications (acts : List Act) : List (Address × Envelope) := acts.filterMap Act.publication?

/-- A router with what its callers have seen. -/
structure Ledger where
  router : Router
  /-- The publication that waits. -/
  waiting : Option Publication := none
  /-- What the publications returned, in their order. -/
  returned : List Nat := []
  /-- How many sends were refused by open and full channels. -/
  refused : Nat := 0

namespace Ledger

def step (s : Ledger) : Act → Ledger
  | .register id name capacity => { s with router := s.router.register id name capacity }
  | .share id name channel =>
    { s with router := { s.router with handles := s.router.handles.insert id ⟨name, channel⟩ } }
  | .publish address e => { s with
      router := (s.router.publish address e).2
      returned := s.returned ++ [(s.router.publish address e).1]
      refused := s.refused + refusals e (s.router.table.route address) s.router }
  | .publishBlocking address e => { s with
      router := (s.router.startPublishing address e).2
      waiting := some (s.router.startPublishing address e).1 }
  | .advance allowed =>
    match s.waiting with
    | none => s
    | some p =>
      let (p, router) := s.router.advanceUpTo allowed p
      if p.remaining.isEmpty then { s with router, waiting := none, returned := s.returned ++ [p.delivered] }
      else { s with router, waiting := some p }
  | .receive channel => { s with router := (s.router.receive? channel).elim s.router Prod.snd }
  | .close channel => { s with router := s.router.shut channel }
  | .leave channel => { s with router := s.router.close channel }

/-- Some acts, if no call comes while a publication waits. -/
def run? (s : Ledger) : List Act → Option Ledger
  | [] => some s
  | act :: acts => if act.isCall ∧ s.waiting.isSome then none else (s.step act).run? acts

/-! ## The invariant -/

/-- How many routes the publication that waits has still to serve. -/
def due (s : Ledger) : Nat := s.waiting.elim 0 fun p => p.remaining.length

/-- How many filers have got the envelope of the publication that waits. -/
def underWay (s : Ledger) : Nat := s.waiting.elim 0 Publication.delivered

/-- The counters fit together, and to what was published and returned. -/
structure Balanced (table : RoutingTable) (published : List (Address × Envelope)) (s : Ledger) : Prop where
  sameTable : s.router.table = table
  received : s.router.counters.received = published.length
  returned : s.returned.length + s.waiting.toList.length = published.length
  finished : s.router.counters.routed + s.router.counters.dropped = s.returned.length
  records : s.router.counters.records = (published.map fun p => p.2.records.length).sum
  sends : s.router.counters.sent + s.router.counters.failed + s.due =
    (published.map fun p => (table.route p.1).length).sum
  sent : s.router.counters.sent = s.returned.sum + s.underWay
  routed : s.router.counters.routed = s.returned.countP fun n => 0 < n
  refused : s.router.counters.refused = s.refused
  le : s.router.counters.refused ≤ s.router.counters.failed

variable {table : RoutingTable} {published : List (Address × Envelope)} {s : Ledger} {act : Act}

theorem balanced_start (table : RoutingTable) : Balanced table [] { router := { table } } :=
  ⟨rfl, rfl, rfl, rfl, rfl, rfl, rfl, rfl, rfl, Nat.le_refl 0⟩

namespace Balanced

variable (h : Balanced table published s)
include h

/-- What changes no counter keeps the balance. -/
theorem keep {r : Router} (ht : r.table = s.router.table) (hc : r.counters = s.router.counters) :
    Balanced table published { s with router := r } := by
  refine ⟨ht.trans h.sameTable, ?_, h.returned, ?_, ?_, ?_, ?_, ?_, ?_, ?_⟩
  all_goals rw [hc]
  exacts [h.received, h.finished, h.records, h.sends, h.sent, h.routed, h.refused, h.le]

theorem publishBlocking (hidle : s.waiting = none) (address : Address) (e : Envelope) :
    Balanced table (published ++ [(address, e)]) (s.step (.publishBlocking address e)) := by
  have hreturned := h.returned
  have hsends := h.sends
  have hsent := h.sent
  rw [hidle, Option.toList_none, List.length_nil] at hreturned
  rw [due, hidle, Option.elim_none] at hsends
  rw [underWay, hidle, Option.elim_none] at hsent
  refine ⟨h.sameTable, ?_, ?_, h.finished, ?_, ?_, hsent, h.routed, h.refused, h.le⟩
  all_goals simp only [Ledger.step, startPublishing, countReceived, due, h.sameTable, List.length_append,
    List.map_append, List.sum_append, List.length_singleton, List.map_singleton, List.sum_singleton,
    Option.toList_some, Option.elim_some]
  · rw [h.received]
  · omega
  · rw [h.records]
  · omega

/-- Some routes of the publication have had their sends. -/
theorem afterSends {p : Publication} (hw : s.waiting = some p) {r : Router} (ht : r.table = s.router.table)
    {left : List RouteId} {delivered sent failed refused : Nat}
    (hsends : Sends s.router.counters r.counters sent failed refused) (hd : delivered = p.delivered + sent)
    (hlength : left.length + sent + failed = p.remaining.length) (hle : refused ≤ failed) :
    Balanced table published { s with
      router := r
      waiting := some { p with remaining := left, delivered }
      refused := s.refused + refused } := by
  have hreturned := h.returned
  have hdue := h.sends
  have hsent := h.sent
  rw [hw, Option.toList_some, List.length_singleton] at hreturned
  rw [due, hw, Option.elim_some] at hdue
  rw [underWay, hw, Option.elim_some] at hsent
  refine ⟨ht.trans h.sameTable, ?_, hreturned, ?_, ?_, ?_, ?_, ?_, ?_, ?_⟩
  all_goals simp only [hsends.eq, due, underWay, Option.elim_some]
  · exact h.received
  · exact h.finished
  · exact h.records
  · omega
  · omega
  · exact h.routed
  · rw [h.refused]
  · exact Nat.add_le_add h.le hle

/-- A publication that has served its routes is counted, and returns. -/
theorem finish {p : Publication} (hw : s.waiting = some p) (hp : p.remaining = []) :
    Balanced table published { s with
      router := s.router.countDone p.delivered, waiting := none, returned := s.returned ++ [p.delivered] } := by
  have hreturned := h.returned
  have hdue := h.sends
  have hsent := h.sent
  rw [hw, Option.toList_some, List.length_singleton] at hreturned
  rw [due, hw, Option.elim_some, hp] at hdue
  rw [underWay, hw, Option.elim_some] at hsent
  refine ⟨h.sameTable, ?_, ?_, ?_, ?_, ?_, ?_, ?_, ?_, ?_⟩
  all_goals simp only [countDone_counters, due, underWay, Option.elim_none, List.length_append,
    List.length_singleton, List.sum_append, List.sum_singleton, List.countP_append, List.countP_singleton,
    decide_eq_true_eq, Option.toList_none, List.length_nil]
  · exact h.received
  · exact hreturned
  · rw [← h.finished]
    split <;> omega
  · exact h.records
  · exact hdue
  · exact hsent
  · rw [h.routed]
  · exact h.refused
  · exact h.le

/-- A publication that does not wait is one that has all its sends at once. -/
theorem publish (hidle : s.waiting = none) (address : Address) (e : Envelope) :
    Balanced table (published ++ [(address, e)]) (s.step (.publish address e)) := by
  obtain ⟨htable, failed, hsends, hlength, hle⟩ :=
    sends_sendAll e (s.router.table.route address) (s.router.countReceived e)
  have hrefusals : refusals e (s.router.table.route address) (s.router.countReceived e) =
      refusals e (s.router.table.route address) s.router := refusals_congr rfl rfl
  rw [hrefusals] at hsends hle
  have hbegun := h.publishBlocking hidle address e
  have hlength' : ([] : List RouteId).length + (sendAll e (s.router.table.route address)
      (s.router.countReceived e)).1 + failed = (s.router.table.route address).length := by
    rwa [List.length_nil, Nat.zero_add]
  have hsent := hbegun.afterSends rfl htable hsends (Nat.zero_add _).symm hlength' hle
  have hdone := hsent.finish rfl rfl
  -- It leaves nothing that waits, as it found nothing.
  rw [Ledger.step, ← hidle] at hdone
  exact hdone

theorem advance (allowed : Nat) : Balanced table published (s.step (.advance allowed)) := by
  cases hw : s.waiting with
  | none =>
      rw [Ledger.step, hw]
      exact h
  | some p =>
      obtain ⟨htable, sent, failed, hsends, hdelivered, hlength⟩ :=
        sends_serve p.envelope p.remaining allowed p.delivered s.router
      cases hv : serve p.envelope p.remaining allowed p.delivered s.router with
      | mk result r =>
          obtain ⟨left, delivered⟩ := result
          rw [hv] at htable hsends hdelivered hlength
          have hserved := h.afterSends hw htable hsends hdelivered hlength (Nat.zero_le failed)
          rw [Ledger.step, hw]
          simp only [advanceUpTo, hv]
          cases left with
          | nil => exact hserved.finish rfl rfl
          | cons id left => exact hserved

theorem step (act : Act) (hcall : act.isCall = true → s.waiting = none) :
    Balanced table (published ++ act.publication?.toList) (s.step act) := by
  have hkeep (hn : act.publication? = none) (hs : Balanced table published (s.step act)) :
      Balanced table (published ++ act.publication?.toList) (s.step act) := by
    rwa [hn, Option.toList_none, List.append_nil]
  cases act with
  | register id name capacity => exact hkeep rfl (h.keep rfl rfl)
  | share id name channel => exact hkeep rfl (h.keep rfl rfl)
  | publish address e => exact h.publish (hcall rfl) address e
  | publishBlocking address e => exact h.publishBlocking (hcall rfl) address e
  | advance allowed => exact hkeep rfl (h.advance allowed)
  | receive channel =>
      obtain ⟨htable, hcounters⟩ := receive?_counters s.router channel
      exact hkeep rfl (h.keep htable hcounters)
  | close channel => exact hkeep rfl (h.keep rfl rfl)
  | leave channel => exact hkeep rfl (h.keep rfl rfl)

theorem run {acts : List Act} {s' : Ledger} (hrun : s.run? acts = some s') :
    Balanced table (published ++ publications acts) s' := by
  induction acts generalizing published s with
  | nil =>
      cases hrun
      rwa [publications, List.filterMap_nil, List.append_nil]
  | cons act acts ih =>
      rw [run?] at hrun
      split at hrun
      · cases hrun
      · next hcall =>
          have hstep := h.step act fun hc => by
            rw [not_and, Bool.not_eq_true, Option.isSome_eq_false_iff, Option.isNone_iff_eq_none] at hcall
            exact hcall hc
          have hpublications : publications (act :: acts) = act.publication?.toList ++ publications acts := by
            cases ha : act.publication? <;> simp [publications, ha]
          rw [hpublications, ← List.append_assoc]
          exact ih hstep hrun

end Balanced

/-- **What a router has counted between two publications.** Each publication is received, and is either routed
or dropped; its records count in any case. Each of its routes costs one send, which succeeds or fails. What
the publications returned tells the sends that succeeded, and which of them are routed. Refusals are the
sends that an open and full channel refused. -/
theorem counters_of_run {table : RoutingTable} {acts : List Act} {s : Ledger}
    (hrun : run? { router := { table } } acts = some s) (hidle : s.waiting = none) :
    let c := s.router.counters
    c.received = (publications acts).length ∧ c.routed + c.dropped = (publications acts).length ∧
      c.records = ((publications acts).map fun p => p.2.records.length).sum ∧
      c.sent + c.failed = ((publications acts).map fun p => (table.route p.1).length).sum ∧
      s.returned.length = (publications acts).length ∧ c.sent = s.returned.sum ∧
      c.routed = s.returned.countP (fun n => 0 < n) ∧ c.refused = s.refused ∧ c.refused ≤ c.failed := by
  have h := (balanced_start table).run hrun
  rw [List.nil_append] at h
  have hreturned := h.returned
  have hsends := h.sends
  have hsent := h.sent
  rw [hidle, Option.toList_none, List.length_nil, Nat.add_zero] at hreturned
  rw [due, hidle, Option.elim_none, Nat.add_zero] at hsends
  rw [underWay, hidle, Option.elim_none, Nat.add_zero] at hsent
  exact ⟨h.received, h.finished.trans hreturned, h.records, hsends, hreturned, hsent, h.routed, h.refused, h.le⟩

/-- Two of three routes have a filer. Their channels take one envelope, refuse the next one, and the third
one waits until one of them has room and the other one is closed. -/
theorem counters_of_waiting :
    let table := ((({} : RoutingTable).subscribe ⟨"a"⟩ (.ofNat 0)).subscribe ⟨"a"⟩ (.ofNat 1)).subscribe
      ⟨"a"⟩ (.ofNat 2)
    let acts := [.register (.ofNat 0) "r" 1, .register (.ofNat 1) "s" 1, .publish ⟨"a"⟩ {}, .publish ⟨"a"⟩ {},
      .publish ⟨"b"⟩ {}, .publishBlocking ⟨"a"⟩ {}, .advance 9, .receive 0, .advance 9, .close 1, .advance 9]
    ∃ s, run? { router := { table } } acts = some s ∧ s.waiting = none ∧ s.returned = [2, 0, 0, 1] ∧
      s.router.counters.received = 4 ∧ s.router.counters.sent = 3 ∧
      s.router.counters.sent + s.router.counters.failed = 9 ∧ s.router.counters.routed = 2 ∧
      s.router.counters.refused = 2 := by
  intro table acts
  have hsome : (run? { router := { table } } acts).isSome = true := by decide +kernel
  obtain ⟨s, hrun⟩ := Option.isSome_iff_exists.1 hsome
  have hend : (run? { router := { table } } acts).all (fun s =>
      s.waiting.isNone && s.returned == [2, 0, 0, 1] && s.refused == 2) = true := by decide +kernel
  rw [hrun] at hend
  simp only [Option.all_some, Bool.and_eq_true, Option.isNone_iff_eq_none, beq_iff_eq] at hend
  obtain ⟨⟨hidle, hreturned⟩, hrefused⟩ := hend
  obtain ⟨hreceived, -, -, hsends, -, hsent, hrouted, hcount, -⟩ := counters_of_run hrun hidle
  rw [hreturned] at hsent hrouted
  refine ⟨s, hrun, hidle, hreturned, hreceived, hsent, hsends.trans ?_, hrouted, hcount.trans hrefused⟩
  decide +kernel

end Ledger

end FeedFiler.Router
