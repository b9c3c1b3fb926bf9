import Mathlib.Data.Prod.Lex
import FeedFiler.Proofs.Filer.Accounting

/-!
# Outstanding writes

Somebody gives messages to a filer that does not wait for its writes: a caller who goes on as soon as they are
scheduled, or the filer's own loop, which keeps their handles, lets go of those that have ended before it
hears the next message, and waits for the rest in the end. The writes have their turns in between in any
order, may go wrong, and find files that others have changed.
-/

namespace FeedFiler

/-- A filer, the one who gives it messages, the files, and what its writes have returned so far. -/
structure Filing (Giver : Type) where
  worker : Worker
  giver : Giver
  files : FileTree
  results : List (Nat × Except StoreError String) := []

namespace Filing

/-- Whose turn it is. -/
inductive Turn where
  | giver
  | task (n : Nat)
  /-- Others change the files. -/
  | others (change : FileTree → FileTree)

variable {Giver : Type}

def start (f : Filer) (giver : Giver) (t : FileTree) : Filing Giver :=
  { worker := { filer := f }, giver, files := t }

def turn (act : Giver → Worker → Giver × Worker) (trouble : Nat → Trouble) (s : Filing Giver) :
    Turn → Filing Giver
  | .giver => { s with giver := (act s.giver s.worker).1, worker := (act s.giver s.worker).2 }
  | .task n =>
    let (worker, files) := s.worker.proceedUnder trouble n s.files
    { s with worker, files, results := s.results ++ s.worker.returned n worker }
  | .others change => { s with files := change s.files }

def run (act : Giver → Worker → Giver × Worker) (trouble : Nat → Trouble) (s : Filing Giver)
    (schedule : List Turn) : Filing Giver :=
  schedule.foldl (turn act trouble) s

def counters (s : Filing Giver) : FilerCounters := s.worker.filer.counters

/-- The counters that the filer's loop gives in the end. -/
def finalCounters? (s : Filing Giver) : Option FilerCounters := s.worker.snapshot

end Filing

/-! ## Who gives the messages -/

/-- A caller with some messages: it schedules the next write, or hands over the next message. -/
def Worker.call (messages : List Document) (k : Worker) : List Document × Worker :=
  match k.unscheduled, messages with
  | [], [] => ([], k)
  | [], message :: messages => (messages, k.hear message)
  | _ :: _, messages => (messages, k.schedule)

/-- What the loop of a filer is doing. -/
inductive LoopPhase where
  | receiving
  /-- It has received a message, and checks which of its handles have ended. -/
  | checking (message : Document) (unchecked : List Nat)
  | storing
  | awaiting (left : List Nat)
  | ended

/-- The loop of a filer: the messages that it has still to receive, and the handles that it keeps. -/
structure Loop where
  due : List Document
  kept : List Nat := []
  phase : LoopPhase := .receiving

namespace Loop

/-- The handle of the `n`-th task says that the task has ended. -/
def sees (k : Worker) (n : Nat) : Bool := (k.tasks[n]?).all fun task => task.stage.isEnded

def act (l : Loop) (k : Worker) : Loop × Worker :=
  match l.phase with
  | .receiving =>
    match l.due with
    | [] => ({ due := [], phase := .awaiting l.kept }, k)
    | message :: due => ({ due, phase := .checking message l.kept }, k)
  | .checking message (n :: unchecked) =>
    ({ l with kept := if sees k n then l.kept else l.kept ++ [n], phase := .checking message unchecked }, k)
  | .checking message [] => ({ l with phase := .storing }, k.hear message)
  | .storing =>
    match k.unscheduled with
    | [] => ({ l with phase := .receiving }, k)
    | _ :: _ => ({ l with kept := l.kept ++ [k.tasks.length] }, k.schedule)
  | .awaiting (n :: left) => (if sees k n then { l with phase := .awaiting left } else l, k)
  | .awaiting [] => ({ l with phase := .ended }, k.conclude)
  | .ended => (l, k)

/-- The handles that the loop has not seen ended. -/
def outstanding (l : Loop) : List Nat :=
  match l.phase with
  | .receiving | .storing => l.kept
  | .checking _ unchecked => l.kept ++ unchecked
  | .awaiting left => left
  | .ended => []

/-- The messages that the filer has not heard. -/
def unheard (l : Loop) : List Document :=
  match l.phase with
  | .checking message _ => message :: l.due
  | _ => l.due

end Loop

/-! ## A turn of a task -/

namespace Worker

variable {k : Worker} {n : Nat} {task : WriteTask} {t : FileTree} {trouble : Nat → Trouble}

theorem proceedUnder_eq_put (k : Worker) (trouble : Nat → Trouble) (n : Nat) (t : FileTree) :
    (k.proceedUnder trouble n t).1 = k ∨
      ∃ task stage filer, k.tasks[n]? = some task ∧ task.stage ≠ .ended ∧
        (k.proceedUnder trouble n t).1 = { k with filer }.put n task stage := by
  obtain ⟨he, -⟩ | ⟨task, w, hn, hr, -, he⟩ | ⟨task, result, hn, hs, he⟩ := proceedUnder_cases k trouble n t
  · exact .inl he
  · refine .inr ⟨task, _, k.filer, hn, fun hended => ?_, he⟩
    simp [WriteTask.hasReturned, WriteStage.isEnded, hended] at hr
  · exact .inr ⟨task, _, _, hn, by simp [hs], he⟩

theorem proceedUnder_unscheduled (k : Worker) (trouble : Nat → Trouble) (n : Nat) (t : FileTree) :
    (k.proceedUnder trouble n t).1.unscheduled = k.unscheduled := by
  obtain he | ⟨_, _, _, -, -, he⟩ := proceedUnder_eq_put k trouble n t
  · rw [he]
  · rw [he]
    rfl

theorem proceedUnder_snapshot (k : Worker) (trouble : Nat → Trouble) (n : Nat) (t : FileTree) :
    (k.proceedUnder trouble n t).1.snapshot = k.snapshot := by
  obtain he | ⟨_, _, _, -, -, he⟩ := proceedUnder_eq_put k trouble n t
  · rw [he]
  · rw [he]
    rfl

theorem proceedUnder_of_idle (h : k.isIdle = true) (trouble : Nat → Trouble) (n : Nat) (t : FileTree) :
    (k.proceedUnder trouble n t).1 = k := by
  obtain he | ⟨task, -, -, hn, hne, -⟩ := proceedUnder_eq_put k trouble n t
  · exact he
  · simp only [isIdle, Bool.and_eq_true, List.all_eq_true, isEnded_iff] at h
    exact absurd (h.2 task (List.mem_of_getElem? hn)) hne

/-- A task waits for one that was scheduled before it. -/
structure Linked (k : Worker) : Prop where
  tail : ∀ p, k.tail = some p → p < k.tasks.length
  previous : ∀ (n : Nat) (task : WriteTask), k.tasks[n]? = some task → ∀ p, task.previous = some p → p < n

theorem linked_start (f : Filer) : Linked { filer := f } := ⟨nofun, nofun⟩

theorem Linked.hear (h : k.Linked) (message : Document) : (k.hear message).Linked := ⟨h.tail, h.previous⟩

theorem Linked.conclude (h : k.Linked) : k.conclude.Linked := ⟨h.tail, h.previous⟩

theorem Linked.schedule (h : k.Linked) : k.schedule.Linked := by
  obtain ⟨-, he⟩ | ⟨r, requests, previous, tail, -, he, hprevious, htail⟩ := schedule_cases k
  · rwa [he]
  rw [he]
  refine ⟨fun p hp => ?_, fun n task hn p hp => ?_⟩
  · rw [List.length_append, List.length_singleton]
    rcases htail with ht | ht
    · exact Nat.lt_succ_of_lt (h.tail p (ht ▸ hp))
    · rw [ht] at hp
      cases hp
      exact Nat.lt_succ_self _
  · rw [getElem?_concat] at hn
    split at hn
    · next hl =>
        cases hn
        rcases hprevious with hpr | hpr
        · rw [hpr] at hp
          cases hp
        · exact hl ▸ h.tail p (hpr ▸ hp)
    · exact h.previous n task hn p hp

theorem Linked.proceed (h : k.Linked) (trouble : Nat → Trouble) (n : Nat) (t : FileTree) :
    (k.proceedUnder trouble n t).1.Linked := by
  obtain he | ⟨task, stage, filer, hn, -, he⟩ := proceedUnder_eq_put k trouble n t
  · rwa [he]
  rw [he]
  refine ⟨fun p hp => ?_, fun j task' hj p hp => ?_⟩
  · rw [put, List.length_set]
    exact h.tail p hp
  · rw [getElem?_put (k := { k with filer }) hn] at hj
    split at hj
    · next hjn =>
        cases hj
        exact hjn ▸ h.previous n task hn p hp
    · exact h.previous j task' hj p hp

theorem schedule_unscheduled {r : WriteRequest} {requests : List WriteRequest}
    (hu : k.unscheduled = r :: requests) : k.schedule.unscheduled = requests := by
  obtain ⟨hnil, -⟩ | ⟨r', requests', _, _, hcons, he, -, -⟩ := schedule_cases k
  · rw [hu] at hnil
    cases hnil
  · rw [hu] at hcons
    cases hcons
    rw [he]

/-! ## Tasks come to their ends -/

/-- Of the tasks that have not ended, one need not wait. -/
theorem Linked.exists_released (h : k.Linked) (hn : k.tasks[n]? = some task) (hne : task.stage ≠ .ended) :
    ∃ (m : Nat) (next : WriteTask), k.tasks[m]? = some next ∧ next.stage ≠ .ended ∧
      (next.stage = .waiting → k.isReleased next = true) := by
  -- Follow the link of a task that must wait; it leads to a task with a smaller number.
  induction n using Nat.strongRecOn generalizing task with
  | ind n ih =>
      by_cases hr : k.isReleased task = true
      · exact ⟨n, task, hn, hne, fun _ => hr⟩
      · cases hp : task.previous with
        | none => simp [isReleased, hp] at hr
        | some p =>
            have hlt := h.previous n task hn p hp
            have hget := List.getElem?_eq_getElem (Nat.lt_trans hlt (List.getElem?_eq_some_iff.1 hn).1)
            refine ih p hlt hget fun he => hr ?_
            simp [isReleased, hp, hget, he]

/-- A bound on the turns that are left of the tasks. -/
def turnsLeft (k : Worker) : Nat := (k.tasks.map WriteTask.turnsLeft).sum

theorem turnsLeft_proceedUnder (hn : k.tasks[n]? = some task) (hne : task.stage ≠ .ended)
    (hr : task.stage = .waiting → k.isReleased task = true) (trouble : Nat → Trouble) (t : FileTree) :
    (k.proceedUnder trouble n t).1.turnsLeft < k.turnsLeft := by
  obtain ⟨-, hstays⟩ | ⟨task, w, hn, -, hlt, he⟩ | ⟨task, result, hn, hs, he⟩ := proceedUnder_cases k trouble n t
  · obtain hs | ⟨hs, hr'⟩ := hstays task hn
    · exact absurd hs hne
    · rw [hr hs] at hr'
      cases hr'
  · rw [he]
    exact Session.sum_map_set_lt hn hlt
  · rw [he]
    refine Session.sum_map_set_lt hn ?_
    simp only [WriteTask.turnsLeft, hs]
    exact Nat.succ_pos _

/-- As long as a task has not ended, one can get on. -/
theorem Linked.gets_on (h : k.Linked) (hm : task ∈ k.tasks) (hne : task.stage ≠ .ended)
    (trouble : Nat → Trouble) (t : FileTree) :
    ∃ n, (k.proceedUnder trouble n t).1.turnsLeft < k.turnsLeft := by
  obtain ⟨n, hn⟩ := List.getElem?_of_mem hm
  obtain ⟨m, next, hnext, hne', hr⟩ := h.exists_released hn hne
  exact ⟨m, turnsLeft_proceedUnder hnext hne' hr trouble t⟩

end Worker

namespace Filing

open Worker

/-- All that the messages ask for was carried out, each write once, and the counters account for it. -/
structure Settled {Giver : Type} (f : Filer) (messages : List Document) (c : FilerCounters)
    (s : Filing Giver) : Prop where
  accounts : f.Accounts messages (s.results.map Prod.snd) c
  requests : s.worker.tasks.map WriteTask.request = f.requests messages
  once : (s.results.map Prod.fst).Perm (List.range s.worker.tasks.length)

theorem settled_of_idle {Giver : Type} {f : Filer} {messages : List Document} {s : Filing Giver}
    (h : Accounted f messages s.results s.worker) (hi : s.worker.isIdle = true) :
    s.Settled f messages s.counters := by
  obtain ⟨haccounts, hrequests, honce⟩ := h.idle hi
  exact ⟨haccounts, hrequests, honce⟩

/-! ## Runs -/

section

variable {Giver : Type} {act : Giver → Worker → Giver × Worker} {trouble : Nat → Trouble} {s : Filing Giver}
  {inv : Filing Giver → Prop}

theorem run_keeps (hturn : ∀ s turn, inv s → inv (s.turn act trouble turn)) (h : inv s)
    (schedule : List Turn) : inv (s.run act trouble schedule) := by
  induction schedule generalizing s with
  | nil => exact h
  | cons turn schedule ih => exact ih (hturn s turn h)

/-- What is left to do: first for the giver, as far as its rank says, then for the tasks. -/
def left (rank : Giver → List WriteRequest → Nat ×ₗ Nat) (s : Filing Giver) : (Nat ×ₗ Nat) ×ₗ Nat :=
  toLex (rank s.giver s.worker.unscheduled, s.worker.turnsLeft)

/-- A filing is done in the end if until then a turn of the giver lowers its rank or a task has not ended. -/
theorem gets_done (isDone : Filing Giver → Bool) (rank : Giver → List WriteRequest → Nat ×ₗ Nat)
    (hturn : ∀ s turn, inv s → inv (s.turn act trouble turn)) (hlinked : ∀ s, inv s → s.worker.Linked)
    (hleft : ∀ s, inv s → isDone s = false →
      rank (act s.giver s.worker).1 (act s.giver s.worker).2.unscheduled < rank s.giver s.worker.unscheduled ∨
        ∃ task ∈ s.worker.tasks, task.stage ≠ .ended)
    (h : inv s) : ∃ more, isDone (s.run act trouble more) = true := by
  -- A turn of a task leaves the rank alone, so it may only lower what comes after it in the order.
  induction hbound : s.left rank using WellFoundedLT.induction generalizing s with
  | ind bound ih =>
      subst hbound
      cases hd : isDone s with
      | true => exact ⟨[], hd⟩
      | false =>
          have hnext : ∃ turn, (s.turn act trouble turn).left rank < s.left rank := by
            obtain hlt | ⟨task, hm, hne⟩ := hleft s h hd
            · exact ⟨.giver, Prod.Lex.toLex_lt_toLex.2 (.inl hlt)⟩
            · obtain ⟨n, hlt⟩ := (hlinked s h).gets_on hm hne trouble s.files
              refine ⟨.task n, Prod.Lex.toLex_lt_toLex.2 (.inr ⟨?_, hlt⟩)⟩
              exact congrArg (rank s.giver) (proceedUnder_unscheduled ..)
          obtain ⟨turn, hlt⟩ := hnext
          obtain ⟨more, hmore⟩ := ih _ hlt (hturn s turn h) rfl
          exact ⟨turn :: more, hmore⟩

end

/-! ## Without the loop -/

namespace Caller

/-- The messages have been heard or are still to be handed over. -/
structure Sound (f : Filer) (all : List Document) (s : Filing (List Document)) : Prop where
  accounted : ∃ heard, Accounted f heard s.results s.worker ∧ heard ++ s.giver = all
  linked : s.worker.Linked

variable {s : Filing (List Document)}

theorem sound_start (f : Filer) (messages : List Document) (t : FileTree) :
    Sound f messages (start f messages t) :=
  ⟨⟨[], accounted_start f, rfl⟩, linked_start f⟩

theorem sound_turn (f : Filer) (all : List Document) (trouble : Nat → Trouble) (s : Filing (List Document))
    (turn : Turn) (h : Sound f all s) : Sound f all (s.turn call trouble turn) := by
  obtain ⟨heard, ha, hall⟩ := h.accounted
  cases turn with
  | task n => exact ⟨⟨heard, ha.proceed trouble n s.files, hall⟩, h.linked.proceed trouble n s.files⟩
  | others change => exact ⟨⟨heard, ha, hall⟩, h.linked⟩
  | giver =>
      simp only [Filing.turn, call]
      split
      · next hg => exact ⟨⟨heard, ha, by rw [← hall, hg]⟩, h.linked⟩
      · next message messages hu hg =>
          refine ⟨⟨heard ++ [message], ha.hear hu message, ?_⟩, h.linked.hear message⟩
          rw [← hall, hg, List.append_assoc]
          rfl
      · exact ⟨⟨heard, ha.schedule, hall⟩, h.linked.schedule⟩

/-- All messages have been handed over, and all handles have resolved. -/
def isResolved (s : Filing (List Document)) : Bool := s.giver.isEmpty && s.worker.isIdle

/-- A turn of the caller hands over a message, or schedules one of the writes of the last. -/
def rank (messages : List Document) (unscheduled : List WriteRequest) : Nat ×ₗ Nat :=
  toLex (messages.length, unscheduled.length)

theorem rank_call {messages : List Document} {k : Worker} (h : messages ≠ [] ∨ k.unscheduled ≠ []) :
    rank (k.call messages).1 (k.call messages).2.unscheduled < rank messages k.unscheduled := by
  simp only [rank, Prod.Lex.toLex_lt_toLex, call]
  split
  · next hu => simp [hu] at h
  · exact .inl (Nat.lt_succ_self _)
  · next r requests hu =>
      refine .inr ⟨rfl, ?_⟩
      rw [schedule_unscheduled hu, hu]
      exact Nat.lt_succ_self _

theorem Sound.resolves (h : Sound f all s) :
    ∃ more, isResolved (s.run call trouble more) = true := by
  refine gets_done isResolved rank (sound_turn f all trouble) (fun _ h => h.linked) (fun s _ hd => ?_) h
  by_cases hr : s.giver ≠ [] ∨ s.worker.unscheduled ≠ []
  · exact .inl (rank_call hr)
  · simp only [not_or, not_not] at hr
    refine .inr ?_
    simpa [isResolved, isIdle, hr] using hd

theorem Sound.resolved (h : Sound f all s) (hr : isResolved s = true) : s.Settled f all s.counters := by
  rw [isResolved, Bool.and_eq_true, List.isEmpty_iff] at hr
  obtain ⟨heard, ha, hall⟩ := h.accounted
  rw [hr.1, List.append_nil] at hall
  exact hall ▸ settled_of_idle ha hr.2

end Caller

end Filing

/-! ## The loop -/

namespace Loop

open Worker

/-- In each phase of the loop: whether all writes are scheduled, all messages received, and the final counters
taken. -/
def Fits (l : Loop) (k : Worker) : Prop :=
  match l.phase with
  | .receiving | .checking .. => k.unscheduled = [] ∧ k.snapshot = none
  | .storing => k.snapshot = none
  | .awaiting _ => k.unscheduled = [] ∧ l.due = [] ∧ k.snapshot = none
  | .ended => k.unscheduled = [] ∧ l.due = [] ∧ k.snapshot = some k.filer.counters

/-- The loop has a handle of every task that has not ended. -/
structure Sound (f : Filer) (all : List Document) (results : List (Nat × Except StoreError String)) (l : Loop)
    (k : Worker) : Prop where
  accounted : ∃ heard, Accounted f heard results k ∧ heard ++ l.unheard = all
  linked : k.Linked
  handles : ∀ (n : Nat) (task : WriteTask), k.tasks[n]? = some task → task.stage ≠ .ended → n ∈ l.outstanding
  fits : l.Fits k

variable {f : Filer} {all : List Document} {results : List (Nat × Except StoreError String)} {l : Loop}
  {k : Worker} {n : Nat} {task : WriteTask} {trouble : Nat → Trouble} {t : FileTree}

theorem ne_of_sees {m : Nat} (hs : sees k m = true) (hn : k.tasks[n]? = some task)
    (hne : task.stage ≠ .ended) : n ≠ m := by
  rintro rfl
  rw [sees, hn, Option.all_some, isEnded_iff] at hs
  exact hne hs

theorem Sound.act (h : Sound f all results l k) : Sound f all results (l.act k).1 (l.act k).2 := by
  obtain ⟨⟨heard, ha, hall⟩, hl, hh, hf⟩ := h
  obtain ⟨due, kept, phase⟩ := l
  cases phase with
  | receiving =>
      cases due with
      | nil => exact ⟨⟨heard, ha, hall⟩, hl, hh, hf.1, rfl, hf.2⟩
      | cons message due => exact ⟨⟨heard, ha, hall⟩, hl, hh, hf⟩
  | checking message unchecked =>
      cases unchecked with
      | nil =>
          refine ⟨⟨heard ++ [message], ha.hear hf.1 message, ?_⟩, hl.hear message,
            fun n task hn hne => ?_, hf.2⟩
          · rw [List.append_assoc]
            exact hall
          · simpa [outstanding, Loop.act] using hh n task hn hne
      | cons m unchecked =>
          refine ⟨⟨heard, ha, hall⟩, hl, fun n task hn hne => ?_, hf⟩
          -- The handle goes from the unchecked ones to the kept ones, unless its task has ended.
          have hmem := hh n task hn hne
          simp only [outstanding, Loop.act, List.mem_append, List.mem_cons] at hmem ⊢
          split
          · next hs => exact hmem.imp_right fun hm => hm.resolve_left (ne_of_sees hs hn hne)
          · rcases hmem with hm | rfl | hm
            · simp [hm]
            · simp
            · simp [hm]
  | storing =>
      simp only [Loop.act]
      split
      · next hu => exact ⟨⟨heard, ha, hall⟩, hl, hh, hu, hf⟩
      · next r requests hu =>
          refine ⟨⟨heard, ha.schedule, hall⟩, hl.schedule, fun n task hn hne => ?_, ?_⟩
          · obtain ⟨hnil, -⟩ | ⟨_, _, _, _, -, he, -, -⟩ := schedule_cases k
            · rw [hu] at hnil
              cases hnil
            · rw [he, getElem?_concat] at hn
              split at hn
              · next hl => simp [outstanding, hl]
              · exact List.mem_append_left _ (hh n task hn hne)
          · exact (schedule_snapshot k).trans hf
  | awaiting left =>
      cases left with
      | nil => exact ⟨⟨heard, ha.conclude, hall⟩, hl.conclude, hh, hf.1, hf.2.1, rfl⟩
      | cons m left =>
          simp only [Loop.act]
          split
          · next hs =>
              refine ⟨⟨heard, ha, hall⟩, hl, fun n task hn hne => ?_, hf⟩
              exact (List.mem_cons.1 (hh n task hn hne)).resolve_left (ne_of_sees hs hn hne)
          · exact ⟨⟨heard, ha, hall⟩, hl, hh, hf⟩
  | ended => exact ⟨⟨heard, ha, hall⟩, hl, hh, hf⟩

theorem Sound.ended {c : FilerCounters} (h : Sound f all results l k) (hc : k.snapshot = some c) :
    l.phase = .ended ∧ l.due = [] ∧ k.filer.counters = c := by
  have hf := h.fits
  cases hp : l.phase with
  | ended =>
      simp only [Fits, hp, hc, Option.some.injEq] at hf
      exact ⟨rfl, hf.2.1, hf.2.2.symm⟩
  | _ => simp [Fits, hp, hc] at hf

theorem Sound.isIdle (h : Sound f all results l k) (hp : l.phase = .ended) : k.isIdle = true := by
  have hf := h.fits
  have hh := h.handles
  simp only [Fits, hp] at hf
  simp only [outstanding, hp, List.not_mem_nil, imp_false, not_not] at hh
  simp only [Worker.isIdle, Bool.and_eq_true, List.isEmpty_iff, List.all_eq_true, isEnded_iff]
  refine ⟨hf.1, fun task hm => ?_⟩
  obtain ⟨n, hn⟩ := List.getElem?_of_mem hm
  exact hh n task hn

theorem Sound.proceed (h : Sound f all results l k) (trouble : Nat → Trouble) (n : Nat) (t : FileTree) :
    Sound f all (results ++ k.returned n (k.proceedUnder trouble n t).1) l
      (k.proceedUnder trouble n t).1 := by
  have hu := proceedUnder_unscheduled k trouble n t
  have hs := proceedUnder_snapshot k trouble n t
  obtain ⟨heard, ha, hall⟩ := h.accounted
  refine ⟨⟨heard, ha.proceed trouble n t, hall⟩, h.linked.proceed trouble n t, fun j task hj hne => ?_, ?_⟩
  · obtain he | ⟨old, stage, filer, hn, hold, he⟩ := proceedUnder_eq_put k trouble n t
    · exact h.handles j task (he ▸ hj) hne
    · rw [he, getElem?_put (k := { k with filer }) hn] at hj
      split at hj
      · next hjn => exact hjn ▸ h.handles n old hn hold
      · exact h.handles j task hj hne
  · have hf := h.fits
    -- When the counters have been taken, no task is left that could still change them.
    cases hp : l.phase with
    | ended => rwa [proceedUnder_of_idle (h.isIdle hp)]
    | _ => simpa only [Fits, hp, hu, hs] using hf

/-- How far the loop has come: a message comes before what is done with it. -/
def rank (l : Loop) (unscheduled : List WriteRequest) : Nat ×ₗ Nat :=
  match l.phase with
  | .checking _ unchecked => toLex (3 * l.due.length + 4, unchecked.length)
  | .storing => toLex (3 * l.due.length + 3, unscheduled.length)
  | .receiving => toLex (3 * l.due.length + 2, 0)
  | .awaiting left => toLex (1, left.length)
  | .ended => toLex (0, 0)

/-- The loop gets on, unless it waits for a task. -/
theorem rank_act (hended : l.phase ≠ .ended)
    (hawaits : ∀ n left, l.phase = .awaiting (n :: left) → sees k n = true) :
    (l.act k).1.rank (l.act k).2.unscheduled < l.rank k.unscheduled := by
  obtain ⟨due, kept, phase⟩ := l
  cases phase with
  | receiving =>
      cases due with
      | nil => simp [rank, Loop.act, Prod.Lex.toLex_lt_toLex]
      | cons message due =>
          simp [rank, Loop.act, Prod.Lex.toLex_lt_toLex]
          omega
  | checking message unchecked => cases unchecked <;> simp [rank, Loop.act, Prod.Lex.toLex_lt_toLex]
  | storing =>
      simp only [Loop.act]
      split
      · simp [rank, Prod.Lex.toLex_lt_toLex]
      · next hu => simp [rank, Prod.Lex.toLex_lt_toLex, schedule_unscheduled hu, hu]
  | awaiting left =>
      cases left with
      | nil => simp [rank, Loop.act, Prod.Lex.toLex_lt_toLex]
      | cons n left => simp [rank, Loop.act, hawaits n left rfl, Prod.Lex.toLex_lt_toLex]
  | ended => exact absurd rfl hended

end Loop

namespace Filing

open Loop Worker

variable {f : Filer} {all : List Document} {s : Filing Loop} {trouble : Nat → Trouble}

/-- The loop of the filing is sound. -/
def Sound (f : Filer) (all : List Document) (s : Filing Loop) : Prop :=
  s.giver.Sound f all s.results s.worker

theorem sound_start (f : Filer) (messages : List Document) (t : FileTree) :
    Sound f messages (start f { due := messages } t) :=
  ⟨⟨[], accounted_start f, rfl⟩, linked_start f, nofun, rfl, rfl⟩

theorem sound_turn (f : Filer) (all : List Document) (trouble : Nat → Trouble) (s : Filing Loop) (turn : Turn)
    (h : Sound f all s) : Sound f all (s.turn Loop.act trouble turn) := by
  cases turn with
  | giver => exact h.act
  | task n => exact h.proceed trouble n s.files
  | others change => exact h

theorem Sound.resolves (h : Sound f all s) :
    ∃ more, (s.run Loop.act trouble more).finalCounters?.isSome = true := by
  refine gets_done (·.finalCounters?.isSome) Loop.rank (sound_turn f all trouble) (fun _ h => h.linked)
    (fun s h hd => ?_) h
  have hended : s.giver.phase ≠ .ended := by
    intro hp
    have hf := h.fits
    simp [Fits, hp] at hf
    simp [finalCounters?, hf.2.2] at hd
  -- Only a loop that waits for a task cannot get on itself, and this task has not ended.
  by_cases hawaits : ∀ n left, s.giver.phase = .awaiting (n :: left) → sees s.worker n = true
  · exact .inl (rank_act hended hawaits)
  · simp only [not_forall] at hawaits
    obtain ⟨n, left, -, hs⟩ := hawaits
    cases hn : s.worker.tasks[n]? with
    | none => simp [sees, hn] at hs
    | some task =>
        refine .inr ⟨task, List.mem_of_getElem? hn, ?_⟩
        simpa [sees, hn] using hs

/-- After the end of the loop nothing happens to the worker. -/
theorem Sound.stays (h : Sound f all s) (hp : s.giver.phase = .ended) (more : List Turn) :
    (s.run Loop.act trouble more).worker = s.worker := by
  have hturn (s' : Filing Loop) (turn : Turn) (h' : s'.giver = s.giver ∧ s'.worker = s.worker) :
      (s'.turn Loop.act trouble turn).giver = s.giver ∧
        (s'.turn Loop.act trouble turn).worker = s.worker := by
    obtain ⟨hg, hw⟩ := h'
    cases turn with
    | giver => simp only [Filing.turn, Loop.act, hg, hp, hw, and_self]
    | task n => exact ⟨hg, by simp only [Filing.turn, hw, proceedUnder_of_idle (h.isIdle hp)]⟩
    | others change => exact ⟨hg, hw⟩
  exact (run_keeps hturn ⟨rfl, rfl⟩ more).2

theorem Sound.concluded {c : FilerCounters} (h : Sound f all s) (hc : s.finalCounters? = some c) :
    s.Settled f all c := by
  obtain ⟨hp, hdue, rfl⟩ := Loop.Sound.ended h hc
  obtain ⟨heard, ha, hall⟩ := h.accounted
  rw [unheard, hp, hdue, List.append_nil] at hall
  exact hall ▸ settled_of_idle ha (Loop.Sound.isIdle h hp)

/-! ## What the counters say -/

/-- **The counters account for every record.** Whatever becomes of the writes of a filer that waits for them,
its counters account for the messages and for what each write returned, and the counts that it returned add
up to the writes that succeeded; this covers the filer's own way of storing. A filer whose caller does not
wait can always come to the point at which all handles have resolved, and then its counters account likewise
for what its tasks returned, each of which returned once. The loop of a filer can always come to its end. The
counters that it then gives account for what all its tasks returned, and nothing of it happens later. -/
theorem counters_account_for_every_record (f : Filer) :
    (∀ (outcomes : Filer.Outcomes) (messages : List Document) (t : FileTree),
      let r := Filer.storeEachWith outcomes 0 messages f t
      let results := (Filer.resultsOf outcomes 0 (f.requests messages) t).2
      f.Accounts messages results r.2.1.counters ∧ r.1.sum = results.countP (·.isOk)) ∧
    (∀ (messages : List Document) (t : FileTree),
      Replay.storeMessages messages f t =
        let r := Filer.storeEachWith (fun _ t r => t.store f.rule.mode r) 0 messages f t
        (r.1.sum, r.2)) ∧
    (∀ (messages : List Document) (t : FileTree) (trouble : Nat → Trouble) (schedule : List Turn),
      let s := (start f messages t).run call trouble schedule
      (∃ more, Caller.isResolved (s.run call trouble more) = true) ∧
      (Caller.isResolved s = true → s.Settled f messages s.counters)) ∧
    (∀ (envelopes : List Envelope) (t : FileTree) (trouble : Nat → Trouble) (schedule : List Turn),
      let messages := envelopes.map Envelope.toDocument
      let s := (start f ({ due := messages } : Loop) t).run Loop.act trouble schedule
      (∃ more, (s.run Loop.act trouble more).finalCounters?.isSome = true) ∧
      (∀ c, s.finalCounters? = some c →
        s.Settled f messages c ∧ s.worker.isIdle = true ∧
        ∀ more, (s.run Loop.act trouble more).worker = s.worker)) := by
  refine ⟨fun outcomes messages t => Filer.accounts_storeEachWith f outcomes messages t,
    fun messages t => Filer.storeEachWith_store rfl 0 messages t,
    fun messages t trouble schedule => ?_, fun envelopes t trouble schedule => ?_⟩
  · have h := run_keeps (Caller.sound_turn f messages trouble) (Caller.sound_start f messages t) schedule
    exact ⟨h.resolves, h.resolved⟩
  · have h := run_keeps (sound_turn f _ trouble) (sound_start f (envelopes.map Envelope.toDocument) t)
      schedule
    refine ⟨h.resolves, fun c hc => ?_⟩
    obtain ⟨hp, -, -⟩ := Loop.Sound.ended h hc
    exact ⟨h.concluded hc, Loop.Sound.isIdle h hp, h.stays hp⟩

/-- The filer rejects the second message, and of the two writes of the first one goes wrong. -/
theorem counters_account_for_two_records :
    let f : Filer :=
      { rule := { name := "r", source := ⟨"a"⟩, predicate := some (.memberOf "module_id" ["1"])
                  reshape := .flatten "k", storePath := "d", storeName := "f" } }
    let envelopes : List Envelope :=
      [{ moduleId := "1", extra := [("k", .array [.object [], .object []])] }, { moduleId := "2" }]
    let messages := envelopes.map Envelope.toDocument
    let trouble (n : Nat) : Trouble := fun t _ => if n = 0 then some (t, .file "d/f" .notEmpty) else none
    let schedule := (List.replicate 16 [Turn.giver, .task 1, .task 0]).flatten
    let called := (start f messages {}).run call trouble schedule
    let looped := (start f ({ due := messages } : Loop) {}).run Loop.act trouble schedule
    let c : FilerCounters := { received := 2, filtered := 1, stored := 1, failed := 1 }
    Caller.isResolved called = true ∧ called.Settled f messages c ∧
      looped.finalCounters? = some c ∧ looped.Settled f messages c := by
  intro f envelopes messages trouble schedule called looped c
  obtain ⟨-, -, hcalled, hlooped⟩ := counters_account_for_every_record f
  have hr : Caller.isResolved called = true := by decide +kernel
  have hc : called.counters = c := by decide +kernel
  have hs : looped.finalCounters? = some c := by decide +kernel
  obtain ⟨-, hresolved⟩ := hcalled messages {} trouble schedule
  obtain ⟨-, hended⟩ := hlooped envelopes {} trouble schedule
  have hcounters : called.Settled f messages called.counters := hresolved hr
  rw [hc] at hcounters
  exact ⟨hr, hcounters, hs, (hended c hs).1⟩

end Filing

end FeedFiler
