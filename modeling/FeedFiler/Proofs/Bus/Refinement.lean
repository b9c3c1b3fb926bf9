import FeedFiler.Proofs.Bus.Schedule
import FeedFiler.Proofs.Bus.Wiring

/-!
# The bus does what storing one after the other does

Filers that append to unrelated files share a bus. In every state that a schedule leads to, what was
published on a filer's address is what the filer received, what its channel holds and what is still due,
in this order; and the filer's writes follow what it received.
-/

namespace FeedFiler.Bus

open FileTree

/-! ## The invariant -/

/-- The envelope that is still to be sent to a filer. -/
def due (p : Option Router.Publication) (i : Nat) : List Envelope :=
  match p with
  | none => []
  | some p => if .ofNat i ∈ p.remaining then [p.envelope] else []

/-- A request of the filer goes to this target, and makes directories up to this entry. -/
def Owns (f : Filer) (t : FileTree) (calls : List (Address × Envelope)) : Targets :=
  fun e p => ∃ r ∈ f.requests (f.messages calls), t.locate r.entry.path = e ∧ t.locate r.path = p

/-- The filers append to plain paths below their directories. What one of them writes is neither written by
another one nor above or below what another one writes, and none of them makes a directory that the name of
another one's file leads through. -/
structure Separate (filers : List Filer) (t : FileTree) (calls : List (Address × Envelope)) : Prop where
  append : ∀ f ∈ filers, f.rule.mode = .append
  descends : ∀ f ∈ filers, ∀ r ∈ f.requests (f.messages calls), r.Descends
  unrelated : filers.Pairwise fun f g => ∀ p ∈ f.targets t (f.messages calls),
    ∀ q ∈ g.targets t (g.messages calls), ¬ p <+: q ∧ ¬ q <+: p
  abreast : filers.Pairwise fun f g => ∀ r ∈ f.requests (f.messages calls),
    ∀ r' ∈ g.requests (g.messages calls), Abreast (t.locate r.entry.path) (t.locate r'.entry.path)

instance (filers : List Filer) (t : FileTree) (calls : List (Address × Envelope)) :
    Decidable (Separate filers t calls) :=
  decidable_of_iff ((∀ f ∈ filers, f.rule.mode = .append) ∧
      (∀ f ∈ filers, ∀ r ∈ f.requests (f.messages calls), r.Descends) ∧
      (filers.Pairwise fun f g => ∀ p ∈ f.targets t (f.messages calls),
        ∀ q ∈ g.targets t (g.messages calls), ¬ p <+: q ∧ ¬ q <+: p) ∧
      filers.Pairwise fun f g => ∀ r ∈ f.requests (f.messages calls),
        ∀ r' ∈ g.requests (g.messages calls), Abreast (t.locate r.entry.path) (t.locate r'.entry.path))
    ⟨fun h => ⟨h.1, h.2.1, h.2.2.1, h.2.2.2⟩, fun h => ⟨h.append, h.descends, h.unrelated, h.abreast⟩⟩

/-- A filer has received, and is to receive, the envelopes that were sent. -/
structure Serves (own : Targets) (f : Filer) (t : FileTree) (sent due : List Envelope)
    (closed : Bool) (files : FileTree) (c : Channel) (k : Worker) : Prop where
  isOpen : c.closed = false
  received : ∃ received m, received ++ c.queue ++ due = sent ∧
    Worker.Follows own f t (received.map Envelope.toDocument) m k files
  snapshot : ∀ counters, k.snapshot = some counters →
    closed = true ∧ c.queue = [] ∧ k.isIdle = true ∧ counters = k.filer.counters

/-- The calls so far have been made, and each filer follows them. -/
structure Sound (filers : List Filer) (t : FileTree) (calls made : List (Address × Envelope))
    (s : Running) : Prop where
  wired : Wired filers s.router
  workers : s.workers.length = filers.length
  published : made ++ s.calls = calls
  remaining : ∀ p, s.publication = some p →
    p.remaining.Nodup ∧ ∀ id ∈ p.remaining, ∃ (i : Nat) (f : Filer), filers[i]? = some f ∧ id = .ofNat i
  closed : s.closed = true → s.calls = [] ∧ s.publication = none
  serves : ∀ (i : Nat) f, filers[i]? = some f → ∃ c k, s.router.channels[i]? = some c ∧ s.workers[i]? = some k ∧
    Serves (Owns f t calls) f t (f.envelopes made) (due s.publication i) s.closed s.files c k

variable {filers : List Filer} {f : Filer} {t t' : FileTree} {calls made : List (Address × Envelope)}
  {s : Running} {c : Channel} {k : Worker} {i : Nat} {own : Targets} {sent : List Envelope}
  {now : List Envelope} {closed : Bool}

/-! ## Envelopes on the way -/

theorem envelopes_concat (f : Filer) (calls : List (Address × Envelope)) (address : Address) (e : Envelope) :
    f.envelopes (calls ++ [(address, e)]) =
      f.envelopes calls ++ if address = f.rule.source then [e] else [] := by
  rw [Filer.envelopes, List.filter_append, List.map_append]
  by_cases h : address = f.rule.source
  · simp [Filer.envelopes, h]
  · simp [Filer.envelopes, h]

theorem Serves.send {e : Envelope} (h : Serves own f t sent [e] closed t' c k) (hc : closed = false) :
    Serves own f t sent [] closed t' { c with queue := c.queue ++ [e] } k := by
  obtain ⟨received, m, hr, hf⟩ := h.received
  refine ⟨h.isOpen, ⟨received, m, ?_, hf⟩, fun counters hk => ?_⟩
  · rw [← hr]
    simp
  · have := (h.snapshot counters hk).1
    rw [hc] at this
    cases this

theorem Serves.receive {e : Envelope} {rest : List Envelope} (h : Serves own f t sent now closed t' c k)
    (hq : c.queue = e :: rest) (hu : k.unscheduled = []) :
    Serves own f t sent now closed t' { c with queue := rest } (k.hear e.toDocument) := by
  obtain ⟨received, m, hr, hf⟩ := h.received
  refine ⟨h.isOpen, ⟨received ++ [e], m, ?_, ?_⟩, fun counters hk => ?_⟩
  · rw [← hr, hq]
    simp
  · rw [List.map_append]
    exact hf.hear hu e.toDocument
  · have := (h.snapshot counters hk).2.1
    rw [hq] at this
    cases this

theorem Serves.keep {t'' : FileTree} (h : Serves own f t sent now closed t' c k) (hk : t'.KeepsDirs t'')
    (hg : Agree own t' t'') : Serves own f t sent now closed t'' c k := by
  obtain ⟨received, m, hr, hf⟩ := h.received
  exact ⟨h.isOpen, ⟨received, m, hr, hf.keep hk hg⟩, h.snapshot⟩

/-! ## The publisher -/

theorem Sound.not_closed (h : Sound filers t calls made s) {p : Router.Publication}
    (hp : s.publication = some p) : s.closed = false := by
  rw [← Bool.not_eq_true]
  intro hc
  rw [(h.closed hc).2] at hp
  cases hp

theorem Sound.start {address : Address} {e : Envelope} {rest : List (Address × Envelope)}
    (h : Sound filers t calls made s) (hp : s.publication = none) (hc : s.calls = (address, e) :: rest) :
    Sound filers t calls (made ++ [(address, e)]) { s with
      router := (s.router.startPublishing address e).2
      publication := some (s.router.startPublishing address e).1
      calls := rest } := by
  refine ⟨h.wired.of_eq rfl rfl, h.workers, ?_, ?_, ?_, ?_⟩
  · rw [← h.published, hc, List.append_assoc]
    rfl
  · rintro p ⟨⟩
    refine ⟨nodup_route h.wired address, fun id hid => ?_⟩
    obtain ⟨i, f, hi, -, he⟩ := (mem_route h.wired).1 hid
    exact ⟨i, f, hi, he⟩
  · intro hcl
    rw [(h.closed hcl).1] at hc
    cases hc
  · intro i f hi
    obtain ⟨c, k, hch, hk, hs⟩ := h.serves i f hi
    refine ⟨c, k, hch, hk, hs.isOpen, ?_, hs.snapshot⟩
    obtain ⟨received, m, hr, hf⟩ := hs.received
    refine ⟨received, m, ?_, hf⟩
    have hd : due (some (s.router.startPublishing address e).1) i =
        if address = f.rule.source then [e] else [] := by
      have hm := ofNat_mem_route h.wired hi (a := address)
      by_cases ha : f.rule.source = address
      · rw [if_pos ha.symm]
        exact if_pos (hm.2 ha)
      · rw [if_neg (Ne.symm ha)]
        exact if_neg (mt hm.1 ha)
    rw [hp, due, List.append_nil] at hr
    rw [envelopes_concat, ← hr, hd]

theorem Sound.serve {e : Envelope} {ids : List RouteId} {delivered : Nat} {j : Nat} {g : Filer}
    (h : Sound filers t calls made s) (hp : s.publication = some ⟨e, .ofNat j :: ids, delivered⟩)
    (hj : filers[j]? = some g) (hc : s.router.channels[j]? = some c) :
    Sound filers t calls made { s with
      router := { s.router with
        channels := s.router.channels.set j { c with queue := c.queue ++ [e] } }.countSend .sent
      publication := some ⟨e, ids, delivered + 1⟩ } := by
  obtain ⟨hn, hids⟩ := h.remaining _ hp
  obtain ⟨hnj, hn⟩ := List.nodup_cons.1 hn
  have hcl := h.not_closed hp
  refine ⟨h.wired.of_eq rfl rfl, h.workers, h.published, ?_, ?_, ?_⟩
  · rintro p ⟨⟩
    exact ⟨hn, fun id hid => hids id (List.mem_cons_of_mem _ hid)⟩
  · intro hcl'
    rw [hcl] at hcl'
    cases hcl'
  · intro i f hi
    obtain ⟨c', k, hch, hk, hs⟩ := h.serves i f hi
    have hset : (Router.countSend { s.router with
        channels := s.router.channels.set j { c with queue := c.queue ++ [e] } } .sent).channels =
          s.router.channels.set j { c with queue := c.queue ++ [e] } := rfl
    rw [hp] at hs
    -- The envelope is in the channel of one filer now, and is as due to the others as it was.
    by_cases he : j = i
    · subst he
      rw [hc] at hch
      cases hch
      rw [due, if_pos List.mem_cons_self] at hs
      refine ⟨{ c with queue := c.queue ++ [e] }, k, ?_, hk, ?_⟩
      · rw [hset, List.getElem?_set_self (List.getElem?_eq_some_iff.1 hc).1]
      · rw [due, if_neg hnj]
        exact hs.send hcl
    · refine ⟨c', k, ?_, hk, ?_⟩
      · rw [hset, List.getElem?_set_ne he]
        exact hch
      · have hne : RouteId.ofNat i ≠ .ofNat j := fun ho =>
          he ((ofNat_inj_of_getElem? h.wired.le hi hj).1 ho).symm
        simp only [due, List.mem_cons, hne, false_or] at hs ⊢
        exact hs

theorem Sound.publish (h : Sound filers t calls made s) : ∃ made', Sound filers t calls made' s.publish := by
  rw [Running.publish]
  split
  · next e delivered hp =>
      refine ⟨made, h.wired.of_eq ?_ ?_, h.workers, h.published, nofun, fun hc => ⟨(h.closed hc).1, rfl⟩, ?_⟩
      · rfl
      · rfl
      · intro i f hi
        obtain ⟨c, k, hch, hk, hs⟩ := h.serves i f hi
        rw [hp] at hs
        exact ⟨c, k, hch, hk, hs⟩
  · next e id ids delivered hp =>
      obtain ⟨j, g, hj, rfl⟩ := (h.remaining _ hp).2 _ List.mem_cons_self
      obtain ⟨c, k, hc, -, hs⟩ := h.serves j g hj
      rw [h.wired.offer hj hc hs.isOpen e]
      by_cases hf : c.free = 0
      · rw [if_pos hf]
        exact ⟨made, h⟩
      · rw [if_neg hf]
        exact ⟨made, h.serve hp hj hc⟩
  · next hp =>
      split
      · next hc =>
          refine ⟨made, h.wired, h.workers, h.published, h.remaining, fun _ => ⟨hc, hp⟩, ?_⟩
          intro i f hi
          obtain ⟨c, k, hch, hk, hs⟩ := h.serves i f hi
          refine ⟨c, k, hch, hk, hs.isOpen, hs.received, fun counters hs' => ?_⟩
          exact ⟨rfl, (hs.snapshot counters hs').2⟩
      · next address e rest hc => exact ⟨made ++ [(address, e)], h.start hp hc⟩

/-! ## Filers and writes -/

theorem locate_mem_targets {messages : List Document} {r : WriteRequest} (hr : r ∈ f.requests messages) :
    t.locate r.path ∈ f.targets t messages :=
  List.mem_map_of_mem hr

theorem Separate.unrelated_of_ne (h : Separate filers t calls) {j : Nat} {g : Filer}
    (hi : filers[i]? = some f) (hj : filers[j]? = some g) (hne : i ≠ j) :
    Unrelated (Owns f t calls) (Owns g t calls) := by
  obtain ⟨hil, rfl⟩ := List.getElem?_eq_some_iff.1 hi
  obtain ⟨hjl, rfl⟩ := List.getElem?_eq_some_iff.1 hj
  have hunrelated := List.pairwise_iff_getElem.1 h.unrelated
  have habreast := List.pairwise_iff_getElem.1 h.abreast
  rintro e p e' p' ⟨r, hr, rfl, rfl⟩ ⟨r', hr', rfl, rfl⟩
  have hp := locate_mem_targets (t := t) hr
  have hp' := locate_mem_targets (t := t) hr'
  rcases Nat.lt_or_gt_of_ne hne with hlt | hlt
  · exact ⟨hunrelated i j hil hjl hlt _ hp _ hp', habreast i j hil hjl hlt r hr r' hr'⟩
  · exact ⟨(hunrelated j i hjl hil hlt _ hp' _ hp).symm, (habreast j i hjl hil hlt r' hr' r hr).symm⟩

theorem Separate.held (h : Separate filers t calls) (hf : f ∈ filers) {p : Location}
    (hp : p ∈ f.targets t (f.messages calls)) : Held (Owns f t calls) p := by
  obtain ⟨r, hr, rfl⟩ := List.mem_map.1 hp
  exact ⟨_, _, ⟨r, hr, rfl, rfl⟩, (h.descends f hf r hr).locate_entry_isPrefix t, List.prefix_rfl⟩

/-- Where no name of a file leads through a directory, it is enough that the targets are unrelated. -/
theorem separate_of_plain (ha : ∀ f ∈ filers, f.rule.mode = .append)
    (hp : ∀ f ∈ filers, ∀ r ∈ f.requests (f.messages calls), r.Plain)
    (hu : filers.Pairwise fun f g => ∀ p ∈ f.targets t (f.messages calls),
      ∀ q ∈ g.targets t (g.messages calls), ¬ p <+: q ∧ ¬ q <+: p) : Separate filers t calls := by
  refine ⟨ha, fun f hf r hr => (hp f hf r hr).descends, hu, hu.imp_of_mem ?_⟩
  intro f g hf hg h r hr r' hr'
  rw [WriteRequest.entry_eq_of_notMem (hp f hf r hr).name, WriteRequest.entry_eq_of_notMem (hp g hg r' hr').name]
  obtain ⟨hno, hno'⟩ := h _ (locate_mem_targets hr) _ (locate_mem_targets hr')
  rintro (hle | hle)
  · exact absurd hle hno
  · exact absurd hle hno'

theorem Sound.mem_requests (h : Sound filers t calls made s) {received rest : List Envelope}
    (hr : received ++ rest = f.envelopes made) {r : WriteRequest}
    (hm : r ∈ f.requests (received.map Envelope.toDocument)) : r ∈ f.requests (f.messages calls) := by
  have he : f.envelopes calls = received ++ (rest ++ f.envelopes s.calls) := by
    rw [← List.append_assoc, hr, ← h.published, Filer.envelopes, List.filter_append, List.map_append]
    rfl
  rw [Filer.requests, Filer.messages, he, List.map_append, List.flatMap_append]
  exact List.mem_append_left _ hm

theorem Sound.set (h : Sound filers t calls made s) (hi : filers[i]? = some f) {r : Router}
    (hw : Wired filers r) (hch : ∀ j, j ≠ i → r.channels[j]? = s.router.channels[j]?)
    (hc : r.channels[i]? = some c)
    (hs : Serves (Owns f t calls) f t (f.envelopes made) (due s.publication i) s.closed s.files c k) :
    Sound filers t calls made { s with router := r, workers := s.workers.set i k } := by
  have hil : i < s.workers.length := by
    rw [h.workers]
    exact (List.getElem?_eq_some_iff.1 hi).1
  refine ⟨hw, ?_, h.published, h.remaining, h.closed, fun j g hj => ?_⟩
  · rw [List.length_set]
    exact h.workers
  · by_cases he : j = i
    · subst he
      rw [hi] at hj
      cases hj
      exact ⟨c, k, hc, List.getElem?_set_self hil, hs⟩
    · obtain ⟨c', k', hc', hk', hs'⟩ := h.serves j g hj
      refine ⟨c', k', ?_, ?_, hs'⟩
      · rw [hch j he]
        exact hc'
      · rw [List.getElem?_set_ne (Ne.symm he)]
        exact hk'

theorem Sound.workers_none (h : Sound filers t calls made s) (hi : filers[i]? = none) :
    s.workers[i]? = none := by
  rw [List.getElem?_eq_none_iff, h.workers]
  exact List.getElem?_eq_none_iff.1 hi

theorem Sound.work (hsep : Separate filers t calls) (h : Sound filers t calls made s) (i : Nat) :
    Sound filers t calls made (s.work i) := by
  rw [Running.work]
  cases hi : filers[i]? with
  | none =>
      rw [h.workers_none hi]
      exact h
  | some f =>
      obtain ⟨c, k, hc, hk, hs⟩ := h.serves i f hi
      have hm := hsep.append f (List.mem_of_getElem? hi)
      simp only [hk]
      cases hu : k.unscheduled with
      | cons r requests =>
          obtain ⟨received, m, hr, hf⟩ := hs.received
          refine h.set hi h.wired (fun _ _ => rfl) hc ⟨hs.isOpen, ⟨received, m, hr, hf.schedule hm⟩, ?_⟩
          intro counters hcs
          rw [Worker.schedule_snapshot] at hcs
          have hidle := (hs.snapshot counters hcs).2.2.1
          simp [Worker.isIdle, hu] at hidle
      | nil =>
          cases hq : c.queue with
          | cons e rest =>
              simp only [Router.receive?_cons hc hq]
              have hil := (List.getElem?_eq_some_iff.1 hc).1
              refine h.set hi (h.wired.of_eq rfl rfl) (fun j hj => ?_) (List.getElem?_set_self hil)
                (hs.receive hq hu)
              exact List.getElem?_set_ne (Ne.symm hj)
          | nil =>
              simp only [Router.receive?_nil hc hq]
              split
              · next hcl =>
                  rw [Bool.and_eq_true] at hcl
                  obtain ⟨received, m, hr, hf⟩ := hs.received
                  refine h.set hi h.wired (fun _ _ => rfl) hc
                    ⟨hs.isOpen, ⟨received, m, hr, hf.conclude⟩, ?_⟩
                  rintro counters ⟨⟩
                  exact ⟨hcl.1, hq, hcl.2, rfl⟩
              · exact h

theorem Sound.write (hsep : Separate filers t calls) (h : Sound filers t calls made s) (i n : Nat) :
    Sound filers t calls made (s.write i n) := by
  rw [Running.write]
  cases hi : filers[i]? with
  | none =>
      rw [h.workers_none hi]
      exact h
  | some f =>
      obtain ⟨c, k, hc, hk, hs⟩ := h.serves i f hi
      have hf := List.mem_of_getElem? hi
      obtain ⟨received, m, hr, hfol⟩ := hs.received
      have hreq : ∀ r ∈ f.requests (received.map Envelope.toDocument),
          r.Descends ∧ Owns f t calls (t.locate r.entry.path) (t.locate r.path) := by
        intro r hm
        rw [List.append_assoc] at hr
        have hm' := h.mem_requests hr hm
        exact ⟨hsep.descends f hf r hm', r, hm', rfl, rfl⟩
      obtain ⟨hchange, m', hfol'⟩ := hfol.proceed (hsep.append f hf) hreq n
      have hil : i < s.workers.length := (List.getElem?_eq_some_iff.1 hk).1
      simp only [hk]
      refine ⟨h.wired, ?_, h.published, h.remaining, h.closed, fun j g hj => ?_⟩
      · rw [List.length_set]
        exact h.workers
      · by_cases he : j = i
        · subst he
          rw [hi] at hj
          cases hj
          refine ⟨c, _, hc, List.getElem?_set_self hil, hs.isOpen, ⟨received, m', hr, hfol'⟩, ?_⟩
          intro counters hcs
          rw [Worker.proceed_snapshot] at hcs
          have hsn := hs.snapshot counters hcs
          rw [Worker.proceed_of_idle hsn.2.2.1]
          exact hsn
        · obtain ⟨c', k', hc', hk', hs'⟩ := h.serves j g hj
          -- The other filers see nothing of the write.
          refine ⟨c', k', hc', ?_, hs'.keep hchange.keepsDirs ?_⟩
          · rw [List.getElem?_set_ne (Ne.symm he)]
            exact hk'
          · exact hchange.agree (hsep.unrelated_of_ne hi hj (Ne.symm he))

/-! ## Runs -/

theorem Sound.step (hsep : Separate filers t calls) (h : Sound filers t calls made s) (actor : Actor) :
    ∃ made', Sound filers t calls made' (s.step actor) := by
  cases actor with
  | publisher => exact h.publish
  | filer i => exact ⟨made, h.work hsep i⟩
  | write i n => exact ⟨made, h.write hsep i n⟩

theorem Sound.run (hsep : Separate filers t calls) (schedule : List Actor)
    (h : Sound filers t calls made s) : ∃ made', Sound filers t calls made' (s.run schedule) := by
  induction schedule generalizing made s with
  | nil => exact ⟨made, h⟩
  | cons actor schedule ih =>
      obtain ⟨made', h'⟩ := h.step hsep actor
      exact ih h'

theorem sound_start {queueSize : Nat} {b : Bus} (h : start filers queueSize t = .ok b)
    (calls : List (Address × Envelope)) : Sound filers t calls [] (b.running calls) := by
  obtain ⟨hfilers, hfiles, hw, hch⟩ := wired_of_start h
  refine ⟨hw, ?_, rfl, nofun, nofun, fun i f hi => ?_⟩
  · rw [running, hfilers, List.length_map]
  · refine ⟨{ capacity := max queueSize 1 }, { filer := f }, ?_, ?_, rfl, ⟨[], 0, rfl, ?_⟩, nofun⟩
    · show b.router.channels[i]? = _
      rw [hch, List.getElem?_replicate, if_pos (List.getElem?_eq_some_iff.1 hi).1]
    · show (b.filers.map _)[i]? = _
      rw [hfilers, List.getElem?_map, hi]
      rfl
    · show Worker.Follows _ f t [] 0 _ b.files
      rw [hfiles]
      exact Worker.follows_start (.refl _ t)

theorem Sound.ended (hsep : Separate filers t calls) (h : Sound filers t calls made s)
    (hi : filers[i]? = some f) {counters : FilerCounters} {k : Worker} (hk : s.workers[i]? = some k)
    (hc : k.snapshot = some counters) :
    k.filer.rule.name = f.rule.name ∧ counters = (f.storeAll t (f.messages calls)).1.counters ∧
      Agree (Owns f t calls) (f.storeAll t (f.messages calls)).2 s.files := by
  obtain ⟨c, k', -, hk', hs⟩ := h.serves i f hi
  rw [hk] at hk'
  cases hk'
  obtain ⟨hcl, hq, hidle, rfl⟩ := hs.snapshot counters hc
  obtain ⟨hcalls, hp⟩ := h.closed hcl
  obtain ⟨received, m, hr, hf⟩ := hs.received
  have hmade := h.published
  rw [hcalls, List.append_nil] at hmade
  rw [hp, hq, due, List.append_nil, List.append_nil, hmade] at hr
  subst hr
  obtain ⟨hfiler, hagree⟩ := hf.idle (hsep.append f (List.mem_of_getElem? hi)) hidle
  refine ⟨?_, congrArg Filer.counters hfiler, hagree⟩
  rw [hf.filer, Filer.after_rule]

theorem filterMap_eq_map {α β γ : Type} {g : α → Option γ} {h : β → γ} {xs : List α} {ys : List β}
    (he : ∀ i : Nat, (xs[i]?).map g = (ys[i]?).map fun y => some (h y)) : xs.filterMap g = ys.map h := by
  have hmap : xs.map g = ys.map fun y => some (h y) := by
    apply List.ext_getElem?
    intro i
    rw [List.getElem?_map, List.getElem?_map, he i]
  have hfilter := congrArg (List.filterMap id) hmap
  rw [List.filterMap_map, List.filterMap_map] at hfilter
  exact hfilter.trans (congrFun List.filterMap_eq_map' ys)

theorem Sound.result (hsep : Separate filers t calls) (h : Sound filers t calls made s)
    {result : List (String × FilerCounters)} (hr : s.result? = some result) :
    result = filers.map (fun f => (f.rule.name, (f.storeAll t (f.messages calls)).1.counters)) ∧
      ∀ f ∈ filers, Agree (Owns f t calls) (f.storeAll t (f.messages calls)).2 s.files := by
  rw [Running.result?] at hr
  split at hr
  · next hall =>
      rw [Bool.and_eq_true, List.all_eq_true] at hall
      have hended (i : Nat) (f : Filer) (hi : filers[i]? = some f) : ∃ k, s.workers[i]? = some k ∧
          k.snapshot = some (f.storeAll t (f.messages calls)).1.counters ∧ k.filer.rule.name = f.rule.name ∧
            Agree (Owns f t calls) (f.storeAll t (f.messages calls)).2 s.files := by
        obtain ⟨c, k, -, hk, -⟩ := h.serves i f hi
        obtain ⟨counters, hc⟩ := Option.isSome_iff_exists.1 (hall.2 k (List.mem_of_getElem? hk))
        obtain ⟨hname, rfl, hagree⟩ := h.ended hsep hi hk hc
        exact ⟨k, hk, hc, hname, hagree⟩
      refine ⟨(Option.some.inj hr).symm.trans (filterMap_eq_map fun i => ?_), fun f hf => ?_⟩
      · cases hi : filers[i]? with
        | none => rw [h.workers_none hi]; rfl
        | some f =>
            obtain ⟨k, hk, hc, hname, -⟩ := hended i f hi
            rw [hk]
            simp only [Option.map_some, hc, hname]
      · obtain ⟨i, hi⟩ := List.getElem?_of_mem hf
        obtain ⟨k, -, -, -, hagree⟩ := hended i f hi
        exact hagree
  · cases hr

/-- **When a bus ends, each filer has counted, and left at its targets, what it does storing the messages
of its address one after the other.** -/
theorem result_of_run {queueSize : Nat} {b : Bus} (h : start filers queueSize t = .ok b)
    (hsep : Separate filers t calls) (schedule : List Actor) {result : List (String × FilerCounters)}
    (hr : ((b.running calls).run schedule).result? = some result) :
    result = filers.map (fun f => (f.rule.name, (f.storeAll t (f.messages calls)).1.counters)) ∧
      ∀ f ∈ filers, ∀ p ∈ f.targets t (f.messages calls),
        ((b.running calls).run schedule).files.get? p = (f.storeAll t (f.messages calls)).2.get? p := by
  obtain ⟨made, hs⟩ := (sound_start h calls).run hsep schedule
  obtain ⟨hresult, hagree⟩ := hs.result hsep hr
  exact ⟨hresult, fun f hf p hp => (hagree f hf).held p (hsep.held hf hp)⟩

/-! ## Two filers in one directory -/

def appender (name storePath storeName : String) : Filer where
  rule := { name, source := ⟨name⟩, storePath, storeName, mode := .append }

/-- A report for each of two filers. -/
def reports : List (Address × Envelope) :=
  [(⟨"a"⟩, { moduleName := "m", moduleId := "1" }), (⟨"b"⟩, { moduleName := "m", moduleId := "2" })]

/-- Turns in which one filer after the other gets everything done. -/
def inTurn : List Actor :=
  List.replicate 12 .publisher ++ [.filer 0, .filer 0] ++ List.replicate 12 (.write 0 0) ++ [.filer 0] ++
    [.filer 1, .filer 1] ++ List.replicate 12 (.write 1 0) ++ [.filer 1]

/-- What a bus with room for one envelope in each channel returns after these turns. -/
def resultInTurn (filers : List Filer) (t : FileTree) : Option (List (String × FilerCounters)) :=
  match start filers 1 t with
  | .ok b => ((b.running reports).run inTurn).result?
  | .error _ => none

theorem exists_of_resultInTurn {result : List (String × FilerCounters)} (h : resultInTurn filers t = some result) :
    ∃ b, start filers 1 t = .ok b ∧ ((b.running reports).run inTurn).result? = some result := by
  rw [resultInTurn] at h
  cases hb : start filers 1 t with
  | error cause =>
      rw [hb] at h
      cases h
  | ok b =>
      rw [hb] at h
      exact ⟨b, rfl, h⟩

/-- The name of the second one's file leads through a directory, beside the one that the first one makes. -/
def neighbours : List Filer := [appender "a" "d/e" "x", appender "b" "d" "f/y"]

theorem result_of_neighbours :
    let t := (({} : FileTree).put ["d"] .dir).put ["d", "f"] .dir
    let result := [("a", ⟨1, 0, 1, 0⟩), ("b", ⟨1, 0, 1, 0⟩)]
    ∃ b, start neighbours 1 t = .ok b ∧ ((b.running reports).run inTurn).result? = some result ∧
      Separate neighbours t reports ∧
        result = neighbours.map (fun f => (f.rule.name, (f.storeAll t (f.messages reports)).1.counters)) ∧
          ((b.running reports).run inTurn).files.contentAt ["d", "f", "y"] =
            "\x7b\"module_name\":\"m\",\"module_id\":\"2\",\"request_data\":[]\x7d\n".toUTF8 := by
  intro t result
  have hr : resultInTurn neighbours t = some result := by decide +kernel
  obtain ⟨b, hb, hrun⟩ := exists_of_resultInTurn hr
  have hsep : Separate neighbours t reports := by decide +kernel
  obtain ⟨hcounters, hfiles⟩ := result_of_run hb hsep inTurn hrun
  have hlast : appender "b" "d" "f/y" ∈ neighbours := List.mem_cons_of_mem _ List.mem_cons_self
  have htarget : ["d", "f", "y"] ∈
      (appender "b" "d" "f/y").targets t ((appender "b" "d" "f/y").messages reports) := by
    decide +kernel
  refine ⟨b, hb, hrun, hsep, hcounters, ?_⟩
  rw [contentAt, hfiles _ hlast _ htarget]
  decide +kernel

/-- The second filer has a slash in the name of its file: nobody makes the directory in front of it, but
the first filer happens to. -/
def crossing : List Filer := [appender "a" "d/x" "z", appender "b" "d" "x/y"]

/-- Plain and unrelated paths are not enough: alone the second filer fails. -/
theorem result_of_crossing :
    (∀ f ∈ crossing, f.rule.mode = .append) ∧
      (∀ f ∈ crossing, ∀ r ∈ f.requests (f.messages reports), PlainPath r.path) ∧
      (crossing.Pairwise fun f g => ∀ p ∈ f.targets {} (f.messages reports),
        ∀ q ∈ g.targets {} (g.messages reports), ¬ p <+: q ∧ ¬ q <+: p) ∧
      ∃ b result, start crossing 1 {} = .ok b ∧ ((b.running reports).run inTurn).result? = some result ∧
        result ≠ crossing.map fun f => (f.rule.name, (f.storeAll {} (f.messages reports)).1.counters) := by
  have hr : resultInTurn crossing {} = some [("a", ⟨1, 0, 1, 0⟩), ("b", ⟨1, 0, 1, 0⟩)] := by decide +kernel
  obtain ⟨b, hb, hrun⟩ := exists_of_resultInTurn hr
  refine ⟨by decide +kernel, by decide +kernel, by decide +kernel, b, _, hb, hrun, ?_⟩
  decide +kernel

end FeedFiler.Bus
