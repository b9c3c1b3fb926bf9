import FeedFiler.Proofs.Bus.Wiring

/-!
# Waiting for room

A filer whose channel holds an envelope has a turn to come, and each round brings it nearer. A publisher
that waits for a filer finds room in its channel afterwards.
-/

namespace FeedFiler.Bus

/-- Each filer has an open channel, which can hold an envelope and is not overfull. -/
structure Equipped (filers : List Filer) (r : Router) : Prop where
  wired : Wired filers r
  length : r.channels.length = filers.length
  isOpen : ∀ c ∈ r.channels, c.closed = false
  capacity : ∀ c ∈ r.channels, 0 < c.capacity
  le : ∀ c ∈ r.channels, c.queue.length ≤ c.capacity

/-- A channel has room for an envelope. -/
def HasRoom (r : Router) (i : Nat) : Prop := ∃ c, r.channels[i]? = some c ∧ c.free ≠ 0

/-- Each filer whose channel holds an envelope has a turn to come, or is among `late`. -/
structure Attended (filers : List Filer) (late : List Nat) (b : Bus) : Prop where
  equipped : Equipped filers b.router
  length : b.filers.length = filers.length
  awake : ∀ (i : Nat) c, b.router.channels[i]? = some c → c.queue ≠ [] → .filer i ∈ b.ready ∨ i ∈ late

variable {filers : List Filer} {f : Filer} {r : Router} {b : Bus} {c : Channel} {late : List Nat}
  {ready : List Task} {i j k n : Nat}

theorem Equipped.of_eq (h : Equipped filers r) {r' : Router} (ht : r'.table = r.table)
    (hh : r'.handles = r.handles) (hc : r'.channels = r.channels) : Equipped filers r' :=
  ⟨h.wired.of_eq ht hh, hc ▸ h.length, hc ▸ h.isOpen, hc ▸ h.capacity, hc ▸ h.le⟩

theorem Equipped.set (h : Equipped filers r) (hc : r.channels[i]? = some c) {queue : List Envelope}
    (hq : queue.length ≤ c.capacity) :
    Equipped filers { r with channels := r.channels.set i { c with queue } } := by
  have hm := List.mem_of_getElem? hc
  refine ⟨h.wired.of_eq rfl rfl, ?_, fun d hd => ?_, fun d hd => ?_, fun d hd => ?_⟩
  · rw [List.length_set]
    exact h.length
  · rcases List.mem_or_eq_of_mem_set hd with hd | rfl
    · exact h.isOpen d hd
    · exact h.isOpen c hm
  · rcases List.mem_or_eq_of_mem_set hd with hd | rfl
    · exact h.capacity d hd
    · exact h.capacity c hm
  · rcases List.mem_or_eq_of_mem_set hd with hd | rfl
    · exact h.le d hd
    · exact hq

theorem Equipped.exists_channel (h : Equipped filers r) (hi : i < filers.length) :
    ∃ c, r.channels[i]? = some c :=
  ⟨_, List.getElem?_eq_getElem (h.length ▸ hi)⟩

/-! ## Turns of filers -/

theorem takeTurn_none (hf : b.filers[i]? = none) : b.takeTurn i = (false, b) := by
  simp only [takeTurn, hf]

theorem takeTurn_some (hf : b.filers[i]? = some f) (hc : b.router.channels[i]? = some c) :
    b.takeTurn i = ((c.queue.take turnLength).length == turnLength, { b with
      router := { b.router with
        channels := b.router.channels.set i { c with queue := c.queue.drop turnLength } }
      filers := b.filers.set i
        (f.storeAll b.files ((c.queue.take turnLength).map Envelope.toDocument)).1
      files := (f.storeAll b.files ((c.queue.take turnLength).map Envelope.toDocument)).2
      ready := b.ready ++ List.replicate
        ((f.storeAll b.files ((c.queue.take turnLength).map Envelope.toDocument)).1.counters.written -
          f.counters.written) .write }) := by
  simp only [takeTurn, hf, Router.takeUpTo, hc]

theorem ready_takeTurn (b : Bus) (i : Nat) : ∃ writes, (b.takeTurn i).2.ready = b.ready ++ writes := by
  cases hf : b.filers[i]? with
  | none => exact ⟨[], by rw [takeTurn_none hf, List.append_nil]⟩
  | some f =>
      simp only [takeTurn, hf]
      exact ⟨_, rfl⟩

theorem Attended.exists_channel (h : Attended filers late b) (hf : b.filers[i]? = some f) :
    ∃ c, b.router.channels[i]? = some c :=
  h.equipped.exists_channel (h.length ▸ (List.getElem?_eq_some_iff.1 hf).1)

theorem Attended.skip (h : Attended filers late b) (hr : b.ready = .write :: ready) :
    Attended filers late { b with ready } := by
  refine ⟨h.equipped, h.length, fun j d hd hq => ?_⟩
  have hj := h.awake j d hd hq
  rw [hr, List.mem_cons] at hj
  exact hj.imp_left fun hm => hm.resolve_left nofun

theorem Attended.takeTurn (h : Attended filers late b) (hr : b.ready = .filer i :: ready) :
    Attended filers (if (takeTurn { b with ready } i).1 then i :: late else late)
      (takeTurn { b with ready } i).2 := by
  cases hf : b.filers[i]? with
  | none =>
      rw [takeTurn_none (b := { b with ready }) hf]
      refine ⟨h.equipped, h.length, fun j d hd hq => ?_⟩
      have hj := h.awake j d hd hq
      rw [hr, List.mem_cons] at hj
      refine hj.imp_left fun hm => hm.resolve_left ?_
      rintro ⟨⟩
      have hlt := (List.getElem?_eq_some_iff.1 hd).1
      rw [h.equipped.length, ← h.length] at hlt
      rw [List.getElem?_eq_none_iff] at hf
      omega
  | some f =>
      obtain ⟨c, hc⟩ := h.exists_channel hf
      have hle := h.equipped.le c (List.mem_of_getElem? hc)
      rw [takeTurn_some (b := { b with ready }) hf hc]
      refine ⟨h.equipped.set hc ?_, ?_, fun j d hd hq => ?_⟩
      · rw [List.length_drop]
        omega
      · rw [List.length_set]
        exact h.length
      · by_cases he : i = j
        · subst he
          rw [List.getElem?_set_self (List.getElem?_eq_some_iff.1 hc).1] at hd
          cases hd
          -- What is left after a full turn is for the next one.
          have hpos := List.length_pos_iff.2 hq
          rw [List.length_drop] at hpos
          have hlt : turnLength < c.queue.length := by omega
          rw [if_pos]
          · exact .inr List.mem_cons_self
          · rw [List.length_take, Nat.min_eq_left (Nat.le_of_lt hlt)]
            exact beq_self_eq_true _
        · rw [List.getElem?_set_ne he] at hd
          have hj := h.awake j d hd hq
          rw [hr, List.mem_cons] at hj
          rcases hj with (hj | hj) | hj
          · cases hj
            exact absurd rfl he
          · exact .inl (List.mem_append_left _ hj)
          · right
            split
            · exact List.mem_cons_of_mem _ hj
            · exact hj

theorem Attended.hasRoom_takeTurn (h : Attended filers late b) (hi : i < filers.length)
    (ready : List Task) : HasRoom (Bus.takeTurn { b with ready } i).2.router i := by
  obtain ⟨c, hc⟩ := h.equipped.exists_channel hi
  have hm := List.mem_of_getElem? hc
  have hpos := h.equipped.capacity c hm
  have hle := h.equipped.le c hm
  have hf : b.filers[i]? = some _ := List.getElem?_eq_getElem (h.length ▸ hi)
  rw [takeTurn_some (b := { b with ready }) hf hc]
  refine ⟨_, List.getElem?_set_self (List.getElem?_eq_some_iff.1 hc).1, ?_⟩
  simp only [Channel.free, List.length_drop, turnLength]
  omega

theorem HasRoom.takeTurn (h : HasRoom b.router j) (i : Nat) : HasRoom (takeTurn b i).2.router j := by
  cases hf : b.filers[i]? with
  | none =>
      rw [takeTurn_none hf]
      exact h
  | some f =>
      have hr : (Bus.takeTurn b i).2.router = (b.router.takeUpTo turnLength i).2 := by
        simp only [Bus.takeTurn, hf]
      obtain ⟨d, hd, hfree⟩ := h
      rw [hr, Router.takeUpTo]
      cases hc : b.router.channels[i]? with
      | none => exact ⟨d, hd, hfree⟩
      | some c =>
          by_cases he : i = j
          · subst he
            rw [hc] at hd
            cases hd
            refine ⟨_, List.getElem?_set_self (List.getElem?_eq_some_iff.1 hc).1, ?_⟩
            simp only [Channel.free, List.length_drop] at hfree ⊢
            omega
          · exact ⟨d, (List.getElem?_set_ne he).trans hd, hfree⟩

/-! ## Rounds -/

theorem Attended.takeTurns (h : Attended filers late b) (n : Nat) :
    Attended filers [] (takeTurns n late b) := by
  induction n, late, b using takeTurns.induct with
  | case1 late b =>
      refine ⟨h.equipped, h.length, fun j d hd hq => .inl ?_⟩
      rcases h.awake j d hd hq with hj | hj
      · exact List.mem_append_left _ hj
      · exact List.mem_append_right _ (List.mem_map_of_mem hj)
  | case2 n late b hr =>
      simp only [Bus.takeTurns, hr]
      refine ⟨h.equipped, h.length, fun j d hd hq => .inl ?_⟩
      have hj := h.awake j d hd hq
      rw [hr] at hj
      exact List.mem_map_of_mem (hj.resolve_left List.not_mem_nil)
  | case3 n late b ready hr ih =>
      simp only [Bus.takeTurns, hr]
      exact ih (h.skip hr)
  | case4 n late b i ready hr usedUp b' ht ih =>
      have h' := h.takeTurn hr
      rw [ht] at h'
      simp only [Bus.takeTurns, hr, ht]
      exact ih h'

theorem HasRoom.takeTurns (h : HasRoom b.router j) (n : Nat) (late : List Nat) :
    HasRoom (takeTurns n late b).router j := by
  induction n, late, b using takeTurns.induct with
  | case1 late b => exact h
  | case2 n late b hr =>
      simp only [Bus.takeTurns, hr]
      exact h
  | case3 n late b ready hr ih =>
      simp only [Bus.takeTurns, hr]
      exact ih h
  | case4 n late b i ready hr usedUp b' ht ih =>
      have h' : HasRoom ({ b with ready } : Bus).router j := h
      have h'' := h'.takeTurn i
      rw [ht] at h''
      simp only [Bus.takeTurns, hr, ht]
      exact ih h''

/-- A filer that is near enough has its turn, and the others come nearer. -/
theorem Attended.hasRoom_or_nearer (h : Attended filers late b) (hj : j < filers.length)
    (hk : b.ready[k]? = some (.filer j)) (n : Nat) :
    HasRoom (Bus.takeTurns n late b).router j ∨
      n ≤ k ∧ (Bus.takeTurns n late b).ready[k - n]? = some (.filer j) := by
  induction n, late, b using takeTurns.induct generalizing k with
  | case1 late b =>
      refine .inr ⟨Nat.zero_le _, ?_⟩
      rw [Bus.takeTurns, Nat.sub_zero]
      exact (List.getElem?_append_left (List.getElem?_eq_some_iff.1 hk).1).trans hk
  | case2 n late b hr =>
      rw [hr] at hk
      cases hk
  | case3 n late b ready hr ih =>
      simp only [Bus.takeTurns, hr]
      rw [hr] at hk
      cases k with
      | zero => cases hk
      | succ k =>
          rw [Nat.add_sub_add_right, Nat.succ_le_succ_iff]
          exact ih (h.skip hr) hk
  | case4 n late b i ready hr usedUp b' ht ih =>
      have h' := h.takeTurn hr
      have hroom := h.hasRoom_takeTurn hj ready
      rw [ht] at h'
      simp only [Bus.takeTurns, hr, ht]
      rw [hr] at hk
      cases k with
      | zero =>
          cases hk
          rw [ht] at hroom
          exact .inl (hroom.takeTurns n _)
      | succ k =>
          rw [Nat.add_sub_add_right, Nat.succ_le_succ_iff]
          refine ih h' ?_
          obtain ⟨writes, hw⟩ := ready_takeTurn { b with ready } i
          rw [ht] at hw
          rw [hw]
          exact (List.getElem?_append_left (List.getElem?_eq_some_iff.1 hk).1).trans hk

theorem Attended.round (h : Attended filers [] b) : Attended filers [] b.round := by
  have h' := h.takeTurns roundLength
  exact ⟨h'.equipped, h'.length, h'.awake⟩

theorem HasRoom.round (h : HasRoom b.router j) : HasRoom b.round.router j := h.takeTurns roundLength []

theorem Attended.rounds (h : Attended filers [] b) (n : Nat) : Attended filers [] (Nat.repeat Bus.round n b) := by
  induction n with
  | zero => exact h
  | succ n ih => exact ih.round

theorem HasRoom.rounds (h : HasRoom b.router j) (n : Nat) : HasRoom (Nat.repeat Bus.round n b).router j := by
  induction n with
  | zero => exact h
  | succ n ih => exact ih.round

theorem Attended.hasRoom_or_nearer_rounds (h : Attended filers [] b) (hj : j < filers.length)
    (hk : b.ready[k]? = some (.filer j)) (n : Nat) :
    HasRoom (Nat.repeat Bus.round n b).router j ∨
      roundLength * n ≤ k ∧ (Nat.repeat Bus.round n b).ready[k - roundLength * n]? = some (.filer j) := by
  induction n with
  | zero => exact .inr ⟨Nat.zero_le _, hk⟩
  | succ n ih =>
      rcases ih with hroom | ⟨hle, hn⟩
      · exact .inl hroom.round
      · rcases (h.rounds n).hasRoom_or_nearer hj hn roundLength with hroom | ⟨hle', hn'⟩
        · exact .inl hroom
        · refine .inr ⟨?_, ?_⟩
          · rw [Nat.mul_succ]
            omega
          · rw [Nat.mul_succ, Nat.sub_add_eq]
            exact hn'

/-- **Who has waited for a filer finds room in its channel.** -/
theorem Attended.hasRoom_waitFor (h : Attended filers [] b) (hj : j < filers.length) :
    HasRoom (b.waitFor j).router j := by
  obtain ⟨c, hc⟩ := h.equipped.exists_channel hj
  by_cases hfree : c.free = 0
  · have hpos := h.equipped.capacity c (List.mem_of_getElem? hc)
    have hq : c.queue ≠ [] := by
      intro hq
      rw [Channel.free, hq, List.length_nil] at hfree
      omega
    have hm := (h.awake j c hc hq).resolve_right List.not_mem_nil
    have hk := List.getElem?_eq_getElem (List.idxOf_lt_length_of_mem hm)
    rw [List.getElem_idxOf] at hk
    rcases h.hasRoom_or_nearer_rounds hj hk (b.ready.idxOf (.filer j) / roundLength + 1) with hroom | ⟨hle, -⟩
    · exact hroom
    · have hlt := Nat.lt_mul_div_succ (b.ready.idxOf (.filer j)) (show 0 < roundLength by decide)
      omega
  · have hroom : HasRoom b.router j := ⟨c, hc, hfree⟩
    exact hroom.rounds _

end FeedFiler.Bus
