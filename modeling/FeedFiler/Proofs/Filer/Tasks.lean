import FeedFiler.Proofs.Files.Writing
import FeedFiler.Proofs.Filer.Storing

/-!
# Writes as tasks

A filer that does not wait for its writes schedules a task for each of them. A task that appends waits
for the append that was scheduled before it. The tasks take turns in any order, and others change the
tree between their turns.
-/

namespace FeedFiler

/-- How far a write has come. -/
inductive WriteStage where
  | waiting
  | writing (left : Writing)
  | ended

def WriteStage.isEnded : WriteStage → Bool
  | .ended => true
  | _ => false

/-- A write that was scheduled. -/
structure WriteTask where
  request : WriteRequest
  /-- The number of the task that this one waits for. -/
  previous : Option Nat
  stage : WriteStage := .waiting

/-- A filer with the writes that it asked for. -/
structure Worker where
  filer : Filer
  /-- The requests of the last message that are not scheduled yet. -/
  unscheduled : List WriteRequest := []
  /-- The tasks in the order in which they were scheduled. -/
  tasks : List WriteTask := []
  /-- The append that was scheduled last. -/
  tail : Option Nat := none
  /-- What had been counted when the filer ended. -/
  snapshot : Option FilerCounters := none

namespace Worker

def hear (k : Worker) (message : Document) : Worker :=
  { k with filer := (k.filer.prepare message).2, unscheduled := (k.filer.prepare message).1 }

/-- Schedules the next write. -/
def schedule (k : Worker) : Worker :=
  match k.unscheduled with
  | [] => k
  | r :: requests =>
    match k.filer.rule.mode with
    | .append => { k with
        unscheduled := requests
        tasks := k.tasks ++ [{ request := r, previous := k.tail }]
        tail := some k.tasks.length }
    | .overwrite => { k with
        unscheduled := requests
        tasks := k.tasks ++ [{ request := r, previous := none }] }

/-- The task need not wait any more. -/
def isReleased (k : Worker) (task : WriteTask) : Bool :=
  match task.previous with
  | none => true
  | some n => (k.tasks[n]?).any fun previous => previous.stage.isEnded

def put (k : Worker) (n : Nat) (task : WriteTask) (stage : WriteStage) : Worker :=
  { k with tasks := k.tasks.set n { task with stage } }

/-- A turn of a task. -/
def proceed (k : Worker) (n : Nat) (t : FileTree) : Worker × FileTree :=
  match k.tasks[n]? with
  | none => (k, t)
  | some task =>
    match task.stage with
    | .waiting => (if k.isReleased task then k.put n task (.writing (.start task.request)) else k, t)
    | .writing (.finished result) =>
      ({ k with filer := k.filer.account result.isOk }.put n task .ended, t)
    | .writing w =>
      (k.put n task (.writing (w.step k.filer.rule.mode task.request t).2),
        (w.step k.filer.rule.mode task.request t).1)
    | .ended => (k, t)

/-- All writes have been scheduled and have ended. -/
def isIdle (k : Worker) : Bool := k.unscheduled.isEmpty && k.tasks.all fun task => task.stage.isEnded

def conclude (k : Worker) : Worker := { k with snapshot := some k.filer.counters }

variable {k : Worker} {n : Nat} {t : FileTree}

theorem schedule_snapshot (k : Worker) : k.schedule.snapshot = k.snapshot := by
  rw [schedule]
  split
  · rfl
  · split <;> rfl

theorem proceed_snapshot (k : Worker) (n : Nat) (t : FileTree) : (k.proceed n t).1.snapshot = k.snapshot := by
  rw [proceed]
  split
  · rfl
  · split
    · split <;> rfl
    · rfl
    · rfl
    · rfl

theorem proceed_of_idle (h : k.isIdle = true) (n : Nat) (t : FileTree) : k.proceed n t = (k, t) := by
  simp only [isIdle, Bool.and_eq_true, List.all_eq_true] at h
  cases hn : k.tasks[n]? with
  | none => simp only [proceed, hn]
  | some task =>
      have he := h.2 task (List.mem_of_getElem? hn)
      cases hs : task.stage with
      | ended => simp only [proceed, hn, hs]
      | waiting => simp [hs, WriteStage.isEnded] at he
      | writing w => simp [hs, WriteStage.isEnded] at he

/-! ## Appends wait for one another -/

def before : Nat → Option Nat
  | 0 => none
  | n + 1 => some n

/-- The requests of the messages so far are those of the tasks and those that are not scheduled. The first
`m` tasks have ended, the next one has not, and those after it are waiting, each for the one before it. -/
structure Chain (f : Filer) (messages : List Document) (m : Nat) (k : Worker) : Prop where
  rule : k.filer.rule = f.rule
  requests : k.tasks.map WriteTask.request ++ k.unscheduled = f.requests messages
  tail : k.tail = before k.tasks.length
  previous : ∀ n task, k.tasks[n]? = some task → task.previous = before n
  le : m ≤ k.tasks.length
  ended : ∀ n task, k.tasks[n]? = some task → n < m → task.stage = .ended
  next : ∀ task, k.tasks[m]? = some task → task.stage ≠ .ended
  waiting : ∀ n task, k.tasks[n]? = some task → m < n → task.stage = .waiting

variable {f : Filer} {messages : List Document} {m : Nat} {task : WriteTask}

theorem chain_start (f : Filer) : Chain f [] 0 { filer := f } :=
  ⟨rfl, rfl, rfl, nofun, Nat.le_refl 0, nofun, nofun, nofun⟩

theorem Chain.le_requests (h : Chain f messages m k) : m ≤ (f.requests messages).length := by
  rw [← h.requests, List.length_append, List.length_map]
  exact Nat.le_add_right_of_le h.le

theorem Chain.request (h : Chain f messages m k) (hn : k.tasks[n]? = some task) :
    (f.requests messages)[n]? = some task.request := by
  have hlt := (List.getElem?_eq_some_iff.1 hn).1
  rw [← h.requests, List.getElem?_append_left (by rwa [List.length_map]), List.getElem?_map, hn]
  rfl

theorem requests_concat (f : Filer) (messages : List Document) (message : Document) :
    f.requests (messages ++ [message]) = f.requests messages ++ f.rule.requests message := by
  simp [Filer.requests]

theorem Chain.take_concat (h : Chain f messages m k) (message : Document) :
    (f.requests (messages ++ [message])).take m = (f.requests messages).take m := by
  rw [requests_concat, List.take_append_of_le_length h.le_requests]

theorem Chain.take_succ (h : Chain f messages m k) (hn : k.tasks[m]? = some task) :
    (f.requests messages).take (m + 1) = (f.requests messages).take m ++ [task.request] := by
  rw [List.take_add_one, h.request hn]
  rfl

theorem Chain.hear (h : Chain f messages m k) (hu : k.unscheduled = []) (message : Document) :
    Chain f (messages ++ [message]) m (k.hear message) := by
  refine ⟨h.rule, ?_, h.tail, h.previous, h.le, h.ended, h.next, h.waiting⟩
  rw [requests_concat, ← h.requests, hu, List.append_nil, ← h.rule]
  rfl

theorem getElem?_concat (tasks : List WriteTask) (new : WriteTask) (n : Nat) :
    (tasks ++ [new])[n]? = if n = tasks.length then some new else tasks[n]? := by
  rw [List.getElem?_append]
  split
  · next h => rw [if_neg (Nat.ne_of_lt h)]
  · next h =>
      split
      · next he => simp [he]
      · next he =>
          rw [List.getElem?_eq_none (Nat.not_lt.1 h), List.getElem?_eq_none]
          simp only [List.length_singleton]
          omega

/-- Scheduling does nothing, or it adds a waiting task. -/
theorem Chain.schedule_eq (h : Chain f messages m k) (hm : f.rule.mode = .append) :
    k.unscheduled = [] ∧ k.schedule = k ∨
      ∃ r requests, k.unscheduled = r :: requests ∧ k.schedule = { k with
        unscheduled := requests
        tasks := k.tasks ++ [{ request := r, previous := k.tail }]
        tail := some k.tasks.length } := by
  cases hu : k.unscheduled with
  | nil => exact .inl ⟨rfl, by simp only [Worker.schedule, hu]⟩
  | cons r requests =>
      have hmode : k.filer.rule.mode = .append := by rw [h.rule, hm]
      exact .inr ⟨r, requests, rfl, by simp only [Worker.schedule, hu, hmode]⟩

theorem Chain.schedule (h : Chain f messages m k) (hm : f.rule.mode = .append) :
    Chain f messages m k.schedule := by
  obtain ⟨-, he⟩ | ⟨r, requests, hu, he⟩ := h.schedule_eq hm
  · rwa [he]
  rw [he]
  refine ⟨h.rule, ?_, ?_, ?_, ?_, ?_, ?_, ?_⟩
  · simp [← h.requests, hu]
  · simp [before]
  · intro n task hn
    rw [getElem?_concat] at hn
    split at hn
    · next hl =>
        cases hn
        rw [hl]
        exact h.tail
    · exact h.previous n task hn
  · have := h.le
    simp only [List.length_append, List.length_singleton]
    omega
  · intro n task hn hlt
    rw [getElem?_concat, if_neg (Nat.ne_of_lt (Nat.lt_of_lt_of_le hlt h.le))] at hn
    exact h.ended n task hn hlt
  · intro task hn
    rw [getElem?_concat] at hn
    split at hn
    · cases hn
      simp
    · exact h.next task hn
  · intro n task hn hlt
    rw [getElem?_concat] at hn
    split at hn
    · cases hn
      rfl
    · exact h.waiting n task hn hlt

theorem getElem?_put (hn : k.tasks[n]? = some task) (new : WriteTask) (j : Nat) (stage : WriteStage) :
    (k.put n new stage).tasks[j]? = if j = n then some { new with stage } else k.tasks[j]? := by
  have hlt := (List.getElem?_eq_some_iff.1 hn).1
  rw [put, List.getElem?_set]
  by_cases h : n = j
  · rw [if_pos h, if_pos h.symm, if_pos hlt]
  · rw [if_neg h, if_neg (Ne.symm h)]

theorem requests_put (hn : k.tasks[n]? = some task) (stage : WriteStage) :
    (k.put n task stage).tasks.map WriteTask.request = k.tasks.map WriteTask.request := by
  apply List.ext_getElem?
  intro j
  rw [List.getElem?_map, List.getElem?_map, getElem?_put hn]
  split
  · next he => rw [he, hn]; rfl
  · rfl

/-- A task keeps its request and what it waits for. -/
theorem Chain.tasks_put (h : Chain f messages m k) (hn : k.tasks[n]? = some task) (stage : WriteStage) :
    (k.put n task stage).tasks.map WriteTask.request = k.tasks.map WriteTask.request ∧
      ∀ j task', (k.put n task stage).tasks[j]? = some task' → task'.previous = before j := by
  refine ⟨requests_put hn stage, fun j task' hj => ?_⟩
  rw [getElem?_put hn] at hj
  split at hj
  · next he =>
      cases hj
      rw [he]
      exact h.previous n task hn
  · exact h.previous j task' hj

theorem Chain.put (h : Chain f messages m k) (hn : k.tasks[m]? = some task) {stage : WriteStage}
    (hs : stage ≠ .ended) : Chain f messages m (k.put m task stage) := by
  obtain ⟨hr, hp⟩ := h.tasks_put hn stage
  refine ⟨h.rule, ?_, ?_, hp, ?_, ?_, ?_, ?_⟩
  · rw [hr]
    exact h.requests
  · rw [Worker.put, List.length_set]
    exact h.tail
  · rw [Worker.put, List.length_set]
    exact h.le
  · intro j task' hj hlt
    rw [getElem?_put hn, if_neg (Nat.ne_of_lt hlt)] at hj
    exact h.ended j task' hj hlt
  · intro task' hj
    rw [getElem?_put hn, if_pos rfl] at hj
    cases hj
    exact hs
  · intro j task' hj hlt
    rw [getElem?_put hn, if_neg (Nat.ne_of_gt hlt)] at hj
    exact h.waiting j task' hj hlt

/-- The first task that has not ended ends. -/
theorem Chain.finish (h : Chain f messages m k) (hn : k.tasks[m]? = some task) (written : Bool) :
    Chain f messages (m + 1) ({ k with filer := k.filer.account written }.put m task .ended) := by
  obtain ⟨hr, hp⟩ := h.tasks_put hn .ended
  have hput := getElem?_put (k := { k with filer := k.filer.account written }) hn task
  refine ⟨h.rule, ?_, ?_, hp, ?_, ?_, ?_, ?_⟩
  · exact (congrArg (· ++ k.unscheduled) hr).trans h.requests
  · rw [Worker.put, List.length_set]
    exact h.tail
  · rw [Worker.put, List.length_set]
    exact (List.getElem?_eq_some_iff.1 hn).1
  · intro j task' hj hlt
    rw [hput] at hj
    split at hj
    · cases hj
      rfl
    · exact h.ended j task' hj (by omega)
  · intro task' hj
    rw [hput, if_neg (Nat.succ_ne_self m)] at hj
    rw [h.waiting (m + 1) task' hj (Nat.lt_succ_self m)]
    nofun
  · intro j task' hj hlt
    rw [hput, if_neg (by omega)] at hj
    exact h.waiting j task' hj (by omega)

/-- A task that is under way or need not wait is the first one that has not ended. -/
theorem Chain.eq_of_writing (h : Chain f messages m k) (hn : k.tasks[n]? = some task)
    {w : Writing} (hs : task.stage = .writing w) : n = m := by
  rcases Nat.lt_trichotomy n m with hlt | he | hlt
  · have := h.ended n task hn hlt
    rw [hs] at this
    cases this
  · exact he
  · have := h.waiting n task hn hlt
    rw [hs] at this
    cases this

@[simp] theorem isEnded_iff {stage : WriteStage} : stage.isEnded = true ↔ stage = .ended := by
  cases stage <;> simp [WriteStage.isEnded]

theorem Chain.eq_of_released (h : Chain f messages m k) (hn : k.tasks[n]? = some task)
    (hs : task.stage = .waiting) (hr : k.isReleased task = true) : n = m := by
  rcases Nat.lt_trichotomy n m with hlt | he | hlt
  · have := h.ended n task hn hlt
    rw [hs] at this
    cases this
  · exact he
  -- A later task waits for one that has not ended.
  · exfalso
    obtain ⟨n, rfl⟩ := Nat.exists_eq_succ_of_ne_zero (Nat.ne_zero_of_lt hlt)
    rw [isReleased, h.previous _ task hn, before, Option.any_eq_true_iff_get] at hr
    obtain ⟨hsome, hend⟩ := hr
    have hprev := Option.eq_some_iff_get_eq.2 ⟨hsome, rfl⟩
    rw [isEnded_iff] at hend
    rcases Nat.eq_or_lt_of_le (Nat.le_of_lt_succ hlt) with rfl | hlt'
    · exact h.next _ hprev hend
    · rw [h.waiting n _ hprev hlt'] at hend
      cases hend

/-- When all tasks have ended, all requests are carried out. -/
theorem Chain.idle (h : Chain f messages m k) (hi : k.isIdle = true) :
    k.tasks[m]? = none ∧ (f.requests messages).take m = f.requests messages := by
  simp only [isIdle, Bool.and_eq_true, List.isEmpty_iff, List.all_eq_true, isEnded_iff] at hi
  obtain ⟨hun, hall⟩ := hi
  have hn : k.tasks[m]? = none := by
    cases hn : k.tasks[m]? with
    | none => rfl
    | some task => exact absurd (hall task (List.mem_of_getElem? hn)) (h.next task hn)
  refine ⟨hn, List.take_of_length_le ?_⟩
  rw [← h.requests, hun, List.append_nil, List.length_map]
  exact List.getElem?_eq_none_iff.1 hn

end Worker

end FeedFiler
