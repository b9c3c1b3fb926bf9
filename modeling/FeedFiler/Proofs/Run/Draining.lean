import FeedFiler.Proofs.Run.Execution
import FeedFiler.Proofs.Run.Returning

/-!
# What an ingest has drained when it returns

An ingest that reads all its payload files waits for the filers, and then everything that was delivered is
stored. One that is refused a file returns at once, and what was delivered may still be queued.
-/

namespace FeedFiler.Ingest

/-- The envelopes that were reported as delivered to a filer. -/
def Underway.delivered (s : Underway) (feed : Feed) (f : Filer) : List Envelope :=
  if f.rule.source = feed.address then s.reported.map Prod.fst else []

/-- The filer has received what was reported as delivered to it, and all that it asked to write for that was
carried out and counted. -/
def Underway.HasDrained (s : Underway) (feed : Feed) (i : Nat) (f : Filer) (n : FilerCounters) : Prop :=
  ∃ a, s.stations[i]? = some a ∧ a.received = s.delivered feed f ∧ (a.filing s.files).Settled f a.messages n

variable {filers : List Filer} {feed : Feed} {total : Nat} {s : Underway} {f : Filer} {i : Nat}
  {a : Station} {n : FilerCounters} {counters : List (String × FilerCounters)} {cause : RunError}

theorem sent_of_none (h : s.publication = none) : s.sent feed f = s.delivered feed f := by
  simp [Underway.sent, Underway.delivered, h]

/-- Nothing more comes to a filer after the end of the reading. -/
theorem Sound.parts (h : Sound filers feed total s) (he : s.ended.isSome = true) (hi : filers[i]? = some f) :
    ∃ c a, s.router.channels[i]? = some c ∧ s.stations[i]? = some a ∧
      Attends f (s.delivered feed f) [] true c a := by
  obtain ⟨c, a, hc, hs, hat⟩ := h.attends i f hi
  rw [(h.ended he).1, sent_of_none (h.ended he).1, he] at hat
  exact ⟨c, a, hc, hs, hat⟩

/-- A filer whose loop has ended has drained. -/
theorem Attends.hasDrained {c : Channel} (h : Attends f (s.delivered feed f) [] true c a)
    (hs : s.stations[i]? = some a) (hn : a.worker.snapshot = some n) :
    s.HasDrained feed i f n ∧ c.queue = [] := by
  obtain ⟨hp, -, -⟩ := Loop.Sound.ended h.sound hn
  obtain ⟨-, hq⟩ := h.left (by rw [hasLeft, hp])
  refine ⟨⟨a, hs, ?_, Filing.Sound.concluded (s := a.filing s.files) h.sound hn⟩, hq⟩
  rw [← h.parts, hq, List.append_nil, List.append_nil]

theorem result?_eq_ok (h : s.result? = some (.ok counters)) :
    s.ended = some (.ok ()) ∧ (∀ a ∈ s.stations, a.worker.snapshot.isSome = true) ∧
      counters = s.stations.filterMap fun a =>
        a.worker.snapshot.map fun n => (a.worker.filer.rule.name, n) := by
  rw [Underway.result?] at h
  split at h
  · cases h
  · cases h
  · next he =>
      split at h
      · next hall =>
          cases h
          exact ⟨he, List.all_eq_true.1 hall, rfl⟩
      · cases h

theorem result?_eq_error (h : s.result? = some (.error cause)) : s.ended = some (.error cause) := by
  rw [Underway.result?] at h
  split at h
  · cases h
  · next he =>
      cases h
      exact he
  · split at h <;> cases h

/-- **A whole ingest has drained when it returns.** -/
theorem Sound.drained (h : Sound filers feed total s) (hr : s.result? = some (.ok counters)) :
    s.reported.length = total ∧ counters.length = filers.length ∧
      ∀ (i : Nat) f, filers[i]? = some f → ∃ n, counters[i]? = some (f.rule.name, n) ∧
        s.HasDrained feed i f n := by
  obtain ⟨hended, hall, rfl⟩ := result?_eq_ok hr
  have he : s.ended.isSome = true := by rw [hended]; rfl
  have hsnapshot : ∀ a ∈ s.stations, ∃ n, a.worker.snapshot = some n := fun a ha =>
    Option.isSome_iff_exists.1 (hall a ha)
  have hcounters := List.filterMap_eq_map_iff_forall_eq_some (l := s.stations)
    (f := fun a => a.worker.snapshot.map fun n => (a.worker.filer.rule.name, n))
    (g := fun a => (a.worker.filer.rule.name, a.worker.snapshot.getD {})) |>.2 fun a ha => by
      obtain ⟨n, hn⟩ := hsnapshot a ha
      simp [hn]
  rw [hcounters]
  refine ⟨?_, ?_, fun i f hi => ?_⟩
  · have hcounted := h.counted
    obtain ⟨hp, hen⟩ := h.ended he
    have ha := (h.complete _ hended).1 rfl
    simpa [hp, hen, ha] using hcounted
  · rw [List.length_map, h.stations]
  · obtain ⟨c, a, hc, hs, hat⟩ := h.parts he hi
    obtain ⟨n, hn⟩ := hsnapshot a (List.mem_of_getElem? hs)
    obtain ⟨heard, ha, -⟩ := hat.sound.accounted
    refine ⟨n, ?_, (hat.hasDrained hs hn).1⟩
    rw [List.getElem?_map, hs, Option.map_some, hn, ha.rule]
    rfl

/-- **An ingest that is refused a file may leave envelopes in the queues**, but only there, and a filer whose
loop still comes to its end has drained. -/
theorem Sound.refused (h : Sound filers feed total s) (hr : s.result? = some (.error cause)) :
    s.reported.length < total ∧ ∀ (i : Nat) f, filers[i]? = some f → ∃ c a,
      s.router.channels[i]? = some c ∧ s.stations[i]? = some a ∧ a.received ++ c.queue = s.delivered feed f ∧
        ∀ n, a.worker.snapshot = some n → s.HasDrained feed i f n := by
  have hended := result?_eq_error hr
  have he : s.ended.isSome = true := by rw [hended]; rfl
  refine ⟨?_, fun i f hi => ?_⟩
  · have hcounted := h.counted
    obtain ⟨hp, hen⟩ := h.ended he
    have ha := mt (h.complete _ hended).2 nofun
    have hpos := List.length_pos_iff.2 ha
    simp only [hp, hen, Option.toList_none, List.length_nil] at hcounted
    omega
  · obtain ⟨c, a, hc, hs, hat⟩ := h.parts he hi
    refine ⟨c, a, hc, hs, ?_, fun n hn => (hat.hasDrained hs hn).1⟩
    rw [← hat.parts, List.append_nil]


/-- **An ingest that reads all its files returns when everything is stored; one that is refused a file returns
at once.** Whatever the configuration, the files and the turns of all: each envelope that was published was
reported as delivered to the filers of its address. When the ingest returns its counters, all files were
published, and each filer has received what was reported as delivered to it, has carried out each write of that
once, and has counted them as its counters say. When it returns an error, what a filer has not received of that
is still queued in its channel; a filer whose loop comes to its end nevertheless has drained. Whatever has
happened, turns can follow with which the ingest returns. The ingest itself is one of these runs. -/
theorem drained_unless_refused {c : Config} {name : String} {feed : Feed} {b : Bus} {t : FileTree}
    (hfeed : feedOf c name = .ok feed) (hb : Bus.start c.filers c.queueSize t = .ok b)
    (arrivals : List Arrival) :
    (∀ (trouble : Nat → Nat → Trouble) (schedule : List Turn),
      let s := (underway b arrivals).run feed trouble schedule
      (∀ call ∈ s.reported, call.2 = c.filers.countP (·.rule.source = feed.address)) ∧
      (∀ counters, s.result? = some (.ok counters) →
        s.reported.length = arrivals.length ∧ counters.length = c.filers.length ∧
          ∀ (i : Nat) f, c.filers[i]? = some f → ∃ n, counters[i]? = some (f.rule.name, n) ∧
            s.HasDrained feed i f n) ∧
      (∀ cause, s.result? = some (.error cause) →
        s.reported.length < arrivals.length ∧
          ∀ (i : Nat) f, c.filers[i]? = some f → ∃ channel a, s.router.channels[i]? = some channel ∧
            s.stations[i]? = some a ∧ a.received ++ channel.queue = s.delivered feed f ∧
              ∀ n, a.worker.snapshot = some n → s.HasDrained feed i f n) ∧
      ∃ more, (s.run feed trouble more).result?.isSome = true) ∧
    ∃ schedule, let s := (underway b arrivals).run feed calm schedule
      s.result? = some (Ingest.run c name arrivals t).2 ∧ s.files = (Ingest.run c name arrivals t).1 := by
  refine ⟨fun trouble schedule => ?_, exists_run_underway hfeed hb arrivals⟩
  have h := (sound_underway hb feed arrivals).run trouble schedule
  obtain ⟨_, ⟨more, rfl⟩, hmore⟩ := h.returns trouble
  exact ⟨h.reported, fun counters hr => h.drained hr, fun cause hr => h.refused hr, more, hmore⟩

/-! ## A file that cannot be read, behind one that can -/

/-- What an ingest works with, if the configuration can be read, the feed is usable and the bus starts. -/
def setUp? (text name : String) (t : FileTree) : Option (Config × Feed × Bus) :=
  match Config.parse text with
  | .error _ => none
  | .ok c =>
    match feedOf c name, Bus.start c.filers c.queueSize t with
    | .ok feed, .ok b => some (c, feed, b)
    | _, _ => none

theorem eq_of_setUp? {text name : String} {t : FileTree} {c : Config} {b : Bus}
    (h : setUp? text name t = some (c, feed, b)) :
    feedOf c name = .ok feed ∧ Bus.start c.filers c.queueSize t = .ok b := by
  rw [setUp?] at h
  split at h
  · cases h
  · split at h
    · next hfeed hb =>
        cases h
        exact ⟨hfeed, hb⟩
    · cases h

def journeys : String :=
  "[feeds.f]\nfeed_type = 'feed_bt_journey_times'\naddress = 'a'\n" ++
    "[routes.r]\nsource_address = 'a'\nstore_path = 'd'\nstore_name = 'x'\n"

/-- A payload without records. -/
def payloads : FileTree := ({} : FileTree).put ["p"] (.file "[]".toUTF8)

def readable : Arrival := ⟨"p", ⟨0, 0⟩⟩

def unreadable : Arrival := ⟨"q", ⟨0, 0⟩⟩

/-- The file is published and filed. -/
def filed : List Turn :=
  List.replicate 5 .publisher ++ List.replicate 4 (.filer 0) ++ List.replicate 20 (.write 0 0) ++
    List.replicate 4 (.filer 0)

/-- After some turns: what the ingest has returned, how many envelopes were reported as delivered to each filer,
and how many each has received. -/
def tally (arrivals : List Arrival) (schedule : List Turn) (p : Config × Feed × Bus) :
    Option (Option (List (String × FilerCounters))) × List Nat × List Nat :=
  let s := (underway p.2.2 arrivals).run p.2.1 calm schedule
  (s.result?.map Except.toOption, p.1.filers.map fun f => (s.delivered p.2.1 f).length,
    s.stations.map fun a => a.received.length)

theorem drained_unless_refused_readable :
    ∃ c feed b f, feedOf c "f" = .ok feed ∧ Bus.start c.filers c.queueSize payloads = .ok b ∧ c.filers = [f] ∧
      let s := (underway b [readable]).run feed calm filed
      let n : FilerCounters := { received := 1, stored := 1 }
      s.result? = some (.ok [("r", n)]) ∧ (s.delivered feed f).length = 1 ∧ s.HasDrained feed 0 f n := by
  have htally : (setUp? journeys "f" payloads).map (tally [readable] filed) =
      some (some (some [("r", { received := 1, stored := 1 })]), [1], [1]) := by decide +kernel
  obtain ⟨⟨c, feed, b⟩, hset, htally⟩ := Option.map_eq_some_iff.1 htally
  obtain ⟨hfeed, hb⟩ := eq_of_setUp? hset
  simp only [tally, Prod.mk.injEq] at htally
  obtain ⟨hresult, hdelivered, -⟩ := htally
  obtain ⟨f, hfilers, hlength⟩ := List.map_eq_singleton_iff.1 hdelivered
  obtain ⟨outcome, hr, ho⟩ := Option.map_eq_some_iff.1 hresult
  cases outcome with
  | error cause => cases ho
  | ok counters =>
      cases ho
      obtain ⟨-, hok, -, -⟩ := (drained_unless_refused hfeed hb [readable]).1 calm filed
      obtain ⟨-, -, hdrained⟩ := hok _ hr
      obtain ⟨n, hn, hd⟩ := hdrained 0 f (by rw [hfilers]; rfl)
      obtain ⟨-, rfl⟩ := Prod.mk.inj (Option.some.inj hn)
      exact ⟨c, feed, b, f, hfeed, hb, hfilers, hr, hlength, hd⟩

/-- The second file cannot be read. The ingest may return at once, and then nothing of what was reported as
delivered has come to the filer. -/
theorem not_drained_if_unreadable :
    ∃ c feed b f, feedOf c "f" = .ok feed ∧ Bus.start c.filers c.queueSize payloads = .ok b ∧ c.filers = [f] ∧
      let s := (underway b [readable, unreadable]).run feed calm (List.replicate 5 .publisher)
      s.result?.isSome = true ∧ (s.delivered feed f).length = 1 ∧ ¬ ∃ n, s.HasDrained feed 0 f n := by
  have htally : (setUp? journeys "f" payloads).map (tally [readable, unreadable] (List.replicate 5 .publisher)) =
      some (some none, [1], [0]) := by decide +kernel
  obtain ⟨⟨c, feed, b⟩, hset, htally⟩ := Option.map_eq_some_iff.1 htally
  obtain ⟨hfeed, hb⟩ := eq_of_setUp? hset
  simp only [tally, Prod.mk.injEq] at htally
  obtain ⟨hresult, hdelivered, hreceived⟩ := htally
  obtain ⟨f, hfilers, hlength⟩ := List.map_eq_singleton_iff.1 hdelivered
  obtain ⟨outcome, hr, -⟩ := Option.map_eq_some_iff.1 hresult
  refine ⟨c, feed, b, f, hfeed, hb, hfilers, ?_, hlength, ?_⟩
  · rw [hr]
    rfl
  · rintro ⟨n, a, ha, hall, -⟩
    obtain ⟨a', hstations, hzero⟩ := List.map_eq_singleton_iff.1 hreceived
    rw [hstations] at ha
    cases ha
    rw [hall, hlength] at hzero
    cases hzero

-- The ingest itself returns then without a file in that place, and with one if all files can be read.
example : (setUp? journeys "f" payloads).map (fun (c, _, _) =>
    [[readable, unreadable], [readable]].map fun arrivals =>
      ((Ingest.run c "f" arrivals payloads).1.get? ["d", "x"]).isSome) = some [false, true] := by decide +kernel

end FeedFiler.Ingest
