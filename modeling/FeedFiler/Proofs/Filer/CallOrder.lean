import Mathlib.Algebra.GroupWithZero.Nat
import FeedFiler.Proofs.Files.Rotating
import FeedFiler.Proofs.Filer.Tasks
import FeedFiler.Proofs.Filer.Trouble

/-!
# Appends in the order of the calls

A filer is called with one message after the other and does not wait for its writes. Its tasks take turns
in any order, and each write may go wrong. The appends are carried out one at a time, in the order in which
they were scheduled, and leave what storing the messages one after the other leaves.
-/

namespace FeedFiler

/-- A call of a filer. -/
inductive Call where
  | store (e : Envelope)
  | storeDocument (message : Document)

def Call.message : Call → Document
  | .store e => e.toDocument
  | .storeDocument message => message

/-- The write of the `n`-th task begins or ends. -/
inductive WriteEvent where
  | began (n : Nat)
  | ended (n : Nat)
deriving DecidableEq

/-- The file system is at work on the request. -/
def WriteTask.inProgress (task : WriteTask) : Bool :=
  match task.stage with
  | .writing w => w.result?.isNone
  | _ => false

/-- A bound on the turns that are left of a task. -/
def WriteTask.turnsLeft (task : WriteTask) : Nat :=
  match task.stage with
  | .waiting => (Writing.start task.request).left + 2
  | .writing w => w.left + 1
  | .ended => 0

namespace Worker

/-- A turn of a task whose write may go wrong. -/
def proceedUnder (trouble : Nat → Trouble) (k : Worker) (n : Nat) (t : FileTree) : Worker × FileTree :=
  match k.tasks[n]? with
  | none => k.proceed n t
  | some task =>
    match task.stage with
    | .writing w =>
      match w.strike? (trouble n) t with
      | some (t, cause) => (k.put n task (.writing (.finished (.error cause))), t)
      | none => k.proceed n t
    | _ => k.proceed n t

/-- What a turn of the `n`-th task did to its write. -/
def noted (n : Nat) (before after : Worker) : List WriteEvent :=
  match (before.tasks[n]?).any WriteTask.inProgress, (after.tasks[n]?).any WriteTask.inProgress with
  | false, true => [.began n]
  | true, false => [.ended n]
  | _, _ => []

end Worker

/-- A filer, the calls that are still to be made, and what its writes did so far. -/
structure Session where
  worker : Worker
  calls : List Call
  files : FileTree
  log : List WriteEvent := []

/-- Whose turn it is. -/
inductive Session.Turn where
  | caller
  | task (n : Nat)

namespace Session

def start (f : Filer) (calls : List Call) (t : FileTree) : Session :=
  { worker := { filer := f }, calls, files := t }

/-- The caller schedules the next write of its call, or makes the next call. -/
def call (s : Session) : Session :=
  match s.worker.unscheduled, s.calls with
  | [], [] => s
  | [], c :: calls => { s with worker := s.worker.hear c.message, calls }
  | _ :: _, _ => { s with worker := s.worker.schedule }

def turn (trouble : Nat → Trouble) (s : Session) : Turn → Session
  | .caller => s.call
  | .task n =>
    let (worker, files) := s.worker.proceedUnder trouble n s.files
    { s with worker, files, log := s.log ++ s.worker.noted n worker }

def run (trouble : Nat → Trouble) (s : Session) (schedule : List Turn) : Session :=
  schedule.foldl (turn trouble) s

/-- All calls were made, and all tasks that they scheduled have ended. -/
def isResolved (s : Session) : Bool := s.calls.isEmpty && s.worker.isIdle

/-- The log of some writes that are carried out one after the other. -/
def oneByOne (count : Nat) : List WriteEvent := (List.range count).flatMap fun n => [.began n, .ended n]

end Session

/-! ## A turn of a task -/

namespace Worker

variable {f : Filer} {messages : List Document} {m n : Nat} {k : Worker} {task : WriteTask} {t : FileTree}
  {trouble : Nat → Trouble}

/-- Where a turn of the `n`-th task can lead when the `m`-th is the first one that has not ended. -/
inductive Proceeds (trouble : Nat → Trouble) (m : Nat) (k : Worker) (t : FileTree) :
    Nat → Worker × FileTree → Prop where
  | idle (n : Nat) : Proceeds trouble m k t n (k, t)
  | begin {task : WriteTask} (get : k.tasks[m]? = some task) (stage : task.stage = .waiting) :
      Proceeds trouble m k t m (k.put m task (.writing (.start task.request)), t)
  | advance {task : WriteTask} {w : Writing} (get : k.tasks[m]? = some task) (stage : task.stage = .writing w)
      (unfinished : w.result? = none) :
      Proceeds trouble m k t m
        (k.put m task (.writing (w.stepUnder (trouble m) .append task.request t).2),
          (w.stepUnder (trouble m) .append task.request t).1)
  | finish {task : WriteTask} {result : Except StoreError String} (get : k.tasks[m]? = some task)
      (stage : task.stage = .writing (.finished result)) :
      Proceeds trouble m k t m
        ({ k with filer := k.filer.account result.isOk }.put m task .ended, t)

theorem proceedUnder_of_waiting (hn : k.tasks[n]? = some task) (hs : task.stage = .waiting)
    (trouble : Nat → Trouble) (t : FileTree) :
    k.proceedUnder trouble n t =
      (if k.isReleased task then k.put n task (.writing (.start task.request)) else k, t) := by
  simp only [proceedUnder, proceed, hn, hs]

theorem proceedUnder_of_finished {result : Except StoreError String} (hn : k.tasks[n]? = some task)
    (hs : task.stage = .writing (.finished result)) (trouble : Nat → Trouble) (t : FileTree) :
    k.proceedUnder trouble n t = ({ k with filer := k.filer.account result.isOk }.put n task .ended, t) := by
  simp only [proceedUnder, proceed, hn, hs, Writing.strike?, Writing.result?]

theorem proceedUnder_of_writing {w : Writing} (hn : k.tasks[n]? = some task) (hs : task.stage = .writing w)
    (hw : w.result? = none) (trouble : Nat → Trouble) (t : FileTree) :
    k.proceedUnder trouble n t =
      (k.put n task (.writing (w.stepUnder (trouble n) k.filer.rule.mode task.request t).2),
        (w.stepUnder (trouble n) k.filer.rule.mode task.request t).1) := by
  cases hstrike : w.strike? (trouble n) t with
  | some p => simp only [proceedUnder, hn, hs, Writing.stepUnder, hstrike]
  | none =>
      simp only [proceedUnder, hn, hs, Writing.stepUnder, hstrike]
      cases w with
      | finished result => cases hw
      | _ => simp only [proceed, hn, hs]

/-- Only the first task that has not ended does anything. -/
theorem Chain.proceeds (h : Chain f messages m k) (hm : f.rule.mode = .append) (trouble : Nat → Trouble)
    (n : Nat) (t : FileTree) : Proceeds trouble m k t n (k.proceedUnder trouble n t) := by
  cases hn : k.tasks[n]? with
  | none =>
      simp only [proceedUnder, proceed, hn]
      exact .idle n
  | some task =>
      cases hs : task.stage with
      | ended =>
          simp only [proceedUnder, proceed, hn, hs]
          exact .idle n
      | waiting =>
          rw [proceedUnder_of_waiting hn hs]
          split
          · next hr =>
              cases h.eq_of_released hn hs hr
              exact .begin hn hs
          · exact .idle n
      | writing w =>
          cases h.eq_of_writing hn hs
          cases hw : w.result? with
          | none =>
              rw [proceedUnder_of_writing hn hs hw, h.rule, hm]
              exact .advance hn hs hw
          | some result =>
              cases w with
              | finished result =>
                  rw [proceedUnder_of_finished hn hs]
                  exact .finish hn hs
              | _ => cases hw

/-- The first task that has not ended need not wait any more. -/
theorem Chain.isReleased (h : Chain f messages m k) (hn : k.tasks[m]? = some task) :
    k.isReleased task = true := by
  rw [Worker.isReleased, h.previous m task hn]
  cases m with
  | zero => rfl
  | succ m =>
      have hlt : m < k.tasks.length := Nat.lt_of_succ_lt (List.getElem?_eq_some_iff.1 hn).1
      have hget := List.getElem?_eq_getElem hlt
      simp [before, hget, h.ended m _ hget (Nat.lt_succ_self m)]

/-- A turn that puts a task into a stage notes what this did to its write. -/
theorem noted_put (hn : k.tasks[n]? = some task) (new : Worker) (stage : WriteStage)
    (hnew : new.tasks = (k.put n task stage).tasks) :
    k.noted n new =
      match task.inProgress, { task with stage : WriteTask }.inProgress with
      | false, true => [.began n]
      | true, false => [.ended n]
      | _, _ => [] := by
  rw [noted, hnew, getElem?_put hn, if_pos rfl, hn]
  rfl

end Worker

/-! ## The invariant -/

namespace Session

open FileTree Worker

variable {trouble : Nat → Trouble} {f : Filer} {t : FileTree} {all messages : List Document} {m n : Nat}
  {s : Session} {task : WriteTask} {w : Writing}

/-- How far a task is for which all before it have left the tree `s`. -/
inductive Current (trouble : Trouble) (s t : FileTree) : Option WriteTask → Prop where
  | none (same : t = s) : Current trouble s t none
  | waiting {task : WriteTask} (stage : task.stage = .waiting) (same : t = s) : Current trouble s t (some task)
  | writing {task : WriteTask} {w : Writing} (stage : task.stage = .writing w)
      (sameEnd : w.complete trouble .append task.request t = s.storeUnder trouble .append task.request) :
      Current trouble s t (some task)

/-- What a task has done to its write. -/
def logOf (n : Nat) (task : Option WriteTask) : List WriteEvent :=
  match task.map WriteTask.stage with
  | some (.writing w) => if w.result?.isNone then [.began n] else [.began n, .ended n]
  | _ => []

/-- Some of the messages have been heard. Of their requests the first `m` have been carried out one after
the other, beginning with `t`, and the next one may be under way. -/
structure InTurn (trouble : Nat → Trouble) (f : Filer) (t : FileTree) (all messages : List Document) (m : Nat)
    (s : Session) : Prop where
  chain : Chain f messages m s.worker
  calls : messages ++ s.calls.map Call.message = all
  filer : s.worker.filer =
    f.after messages (storeEachUnder trouble .append 0 ((f.requests messages).take m) t).2
  current : Current (trouble m) (storeEachUnder trouble .append 0 ((f.requests messages).take m) t).1 s.files
    s.worker.tasks[m]?
  log : s.log = oneByOne m ++ logOf m s.worker.tasks[m]?

theorem oneByOne_succ (count : Nat) :
    oneByOne (count + 1) = oneByOne count ++ [.began count, .ended count] := by
  simp [oneByOne, List.range_succ]

theorem inTurn_start (trouble : Nat → Trouble) (f : Filer) (t : FileTree) (calls : List Call) :
    InTurn trouble f t (calls.map Call.message) [] 0 (start f calls t) :=
  ⟨chain_start f, rfl, rfl, .none rfl, rfl⟩

theorem InTurn.hear {c : Call} {calls : List Call} (h : InTurn trouble f t all messages m s)
    (hu : s.worker.unscheduled = []) (hc : s.calls = c :: calls) :
    InTurn trouble f t all (messages ++ [c.message]) m { s with worker := s.worker.hear c.message, calls } := by
  refine ⟨h.chain.hear hu c.message, ?_, ?_, ?_, h.log⟩
  · rw [← h.calls, hc, List.append_assoc]
    rfl
  · rw [h.chain.take_concat, Worker.hear, h.filer, Filer.prepare_after]
  · rw [h.chain.take_concat]
    exact h.current

theorem InTurn.schedule (h : InTurn trouble f t all messages m s) (hm : f.rule.mode = .append) :
    InTurn trouble f t all messages m { s with worker := s.worker.schedule } := by
  obtain ⟨-, he⟩ | ⟨r, requests, -, he⟩ := h.chain.schedule_eq hm
  · rwa [he]
  have hget : s.worker.schedule.tasks[m]? =
      if m = s.worker.tasks.length then some { request := r, previous := s.worker.tail }
      else s.worker.tasks[m]? := by
    rw [he, getElem?_concat]
  refine ⟨h.chain.schedule hm, h.calls, by rw [he]; exact h.filer, ?_, ?_⟩
  · have hc := h.current
    rw [hget]
    split
    · next hl =>
        rw [hl, List.getElem?_eq_none (Nat.le_refl _)] at hc
        cases hc with
        | none same => exact .waiting rfl (by rw [hl]; exact same)
    · exact hc
  · rw [hget, h.log]
    split
    · next hl =>
        rw [hl, List.getElem?_eq_none (Nat.le_refl _)]
        rfl
    · rfl

/-- The session after a turn of the `n`-th task. -/
def moved (s : Session) (n : Nat) (p : Worker × FileTree) : Session :=
  { s with worker := p.1, files := p.2, log := s.log ++ s.worker.noted n p.1 }

/-- The first task that has not ended gets on with its write. -/
theorem InTurn.put (h : InTurn trouble f t all messages m s) (get : s.worker.tasks[m]? = some task)
    {files : FileTree}
    (hend : w.complete (trouble m) .append task.request files =
      (storeEachUnder trouble .append 0 ((f.requests messages).take m) t).1.storeUnder (trouble m) .append
        task.request)
    (hlog : logOf m (some { task with stage := .writing w }) =
      logOf m (some task) ++ s.worker.noted m (s.worker.put m task (.writing w))) :
    InTurn trouble f t all messages m (s.moved m (s.worker.put m task (.writing w), files)) := by
  have hget : (s.worker.put m task (.writing w)).tasks[m]? = some { task with stage := .writing w } := by
    rw [getElem?_put get, if_pos rfl]
  refine ⟨h.chain.put get nofun, h.calls, h.filer, ?_, ?_⟩
  · rw [moved, hget]
    exact .writing rfl hend
  · rw [moved, hget, hlog, h.log, get, List.append_assoc]

theorem result?_start (r : WriteRequest) : (Writing.start r).result? = none := by
  rw [Writing.start]
  split <;> rfl

theorem InTurn.begin (h : InTurn trouble f t all messages m s) (get : s.worker.tasks[m]? = some task)
    (stage : task.stage = .waiting) :
    InTurn trouble f t all messages m
      (s.moved m (s.worker.put m task (.writing (.start task.request)), s.files)) := by
  have hc := h.current
  rw [get] at hc
  cases hc with
  | writing stage' =>
      rw [stage] at stage'
      cases stage'
  | waiting _ same =>
      refine h.put get (by rw [storeUnder, ← same]) ?_
      rw [noted_put get _ _ rfl]
      simp [logOf, WriteTask.inProgress, stage, result?_start]

theorem InTurn.advance (h : InTurn trouble f t all messages m s) (get : s.worker.tasks[m]? = some task)
    (stage : task.stage = .writing w) (unfinished : w.result? = none) :
    InTurn trouble f t all messages m
      (s.moved m (s.worker.put m task (.writing (w.stepUnder (trouble m) .append task.request s.files).2),
        (w.stepUnder (trouble m) .append task.request s.files).1)) := by
  have hc := h.current
  rw [get] at hc
  cases hc with
  | waiting stage' =>
      rw [stage] at stage'
      cases stage'
  | writing stage' sameEnd =>
      rw [stage] at stage'
      cases stage'
      refine h.put get (by rw [Writing.complete_stepUnder, sameEnd]) ?_
      rw [noted_put get _ _ rfl]
      cases hr : (w.stepUnder (trouble m) .append task.request s.files).2.result? with
      | none => simp [logOf, WriteTask.inProgress, stage, unfinished, hr]
      | some result => simp [logOf, WriteTask.inProgress, stage, unfinished, hr]

theorem InTurn.finish {result : Except StoreError String} (h : InTurn trouble f t all messages m s)
    (get : s.worker.tasks[m]? = some task) (stage : task.stage = .writing (.finished result)) :
    InTurn trouble f t all messages (m + 1)
      (s.moved m ({ s.worker with filer := s.worker.filer.account result.isOk }.put m task .ended, s.files)) := by
  have hc := h.current
  rw [get] at hc
  cases hc with
  | waiting stage' =>
      rw [stage] at stage'
      cases stage'
  | writing stage' sameEnd =>
      rw [stage] at stage'
      cases stage'
      rw [Writing.complete_finished] at sameEnd
      have hstore : storeEachUnder trouble .append 0 ((f.requests messages).take (m + 1)) t =
          (s.files, (storeEachUnder trouble .append 0 ((f.requests messages).take m) t).2 ++ [result.isOk]) := by
        rw [h.chain.take_succ get, storeEachUnder_append, Nat.zero_add,
          List.length_take_of_le h.chain.le_requests]
        simp only [storeEachUnder, ← sameEnd]
      have hnext : ({ s.worker with filer := s.worker.filer.account result.isOk }.put m task
          .ended).tasks[m + 1]? = s.worker.tasks[m + 1]? := by
        rw [getElem?_put (k := { s.worker with filer := s.worker.filer.account result.isOk }) get,
          if_neg (Nat.succ_ne_self m)]
      refine ⟨h.chain.finish get result.isOk, h.calls, ?_, ?_, ?_⟩
      · rw [hstore, ← Filer.account_after, ← h.filer]
        rfl
      · rw [hstore, moved, hnext]
        cases hn : s.worker.tasks[m + 1]? with
        | none => exact .none rfl
        | some next => exact .waiting (h.chain.waiting (m + 1) next hn (Nat.lt_succ_self m)) rfl
      · have hlog : logOf (m + 1) s.worker.tasks[m + 1]? = [] := by
          cases hn : s.worker.tasks[m + 1]? with
          | none => rfl
          | some next => simp [logOf, h.chain.waiting (m + 1) next hn (Nat.lt_succ_self m)]
        have hnoted : s.worker.noted m
            ({ s.worker with filer := s.worker.filer.account result.isOk }.put m task .ended) = [] := by
          refine (noted_put get _ .ended rfl).trans ?_
          simp [WriteTask.inProgress, stage, Writing.result?]
        rw [moved, hnext, hlog, List.append_nil, oneByOne_succ]
        show s.log ++ s.worker.noted m _ = _
        rw [hnoted, h.log, get]
        simp [logOf, stage, Writing.result?]

/-! ## Every turn -/

theorem InTurn.call (h : InTurn trouble f t all messages m s) (hm : f.rule.mode = .append) :
    ∃ messages', InTurn trouble f t all messages' m s.call := by
  rw [Session.call]
  split
  · exact ⟨messages, h⟩
  · next c calls hu hc => exact ⟨_, h.hear hu hc⟩
  · exact ⟨messages, h.schedule hm⟩

theorem moved_idle (s : Session) (n : Nat) : s.moved n (s.worker, s.files) = s := by
  have hnoted : s.worker.noted n s.worker = [] := by
    rw [noted]
    cases (s.worker.tasks[n]?).any WriteTask.inProgress <;> rfl
  rw [moved, hnoted, List.append_nil]

theorem turn_task (trouble : Nat → Trouble) (s : Session) (n : Nat) :
    s.turn trouble (.task n) = s.moved n (s.worker.proceedUnder trouble n s.files) := rfl

theorem InTurn.turn (h : InTurn trouble f t all messages m s) (hm : f.rule.mode = .append) (turn : Turn) :
    ∃ messages' m', InTurn trouble f t all messages' m' (s.turn trouble turn) := by
  cases turn with
  | caller =>
      obtain ⟨messages', h'⟩ := h.call hm
      exact ⟨messages', m, h'⟩
  | task n =>
      rw [turn_task]
      have hp := h.chain.proceeds hm trouble n s.files
      generalize s.worker.proceedUnder trouble n s.files = p at hp
      cases hp with
      | idle => exact ⟨messages, m, by rwa [moved_idle]⟩
      | begin get stage => exact ⟨messages, m, h.begin get stage⟩
      | advance get stage unfinished => exact ⟨messages, m, h.advance get stage unfinished⟩
      | finish get stage => exact ⟨messages, m + 1, h.finish get stage⟩

theorem InTurn.run (h : InTurn trouble f t all messages m s) (hm : f.rule.mode = .append)
    (schedule : List Turn) :
    ∃ messages' m', InTurn trouble f t all messages' m' (s.run trouble schedule) := by
  induction schedule generalizing messages m s with
  | nil => exact ⟨messages, m, h⟩
  | cons turn schedule ih =>
      obtain ⟨messages', m', h'⟩ := h.turn hm turn
      exact ih h'

/-! ## All tasks end -/

/-- A bound on the turns that a request takes, with the one in which it is scheduled. -/
def turnsOf (r : WriteRequest) : Nat := (Writing.start r).left + 3

/-- A bound on the turns that are left. -/
def turnsLeft (s : Session) : Nat :=
  (s.worker.tasks.map WriteTask.turnsLeft).sum + (s.worker.unscheduled.map turnsOf).sum +
    (s.calls.map fun c => ((s.worker.filer.rule.requests c.message).map turnsOf).sum + 1).sum

theorem sum_map_set_lt {tasks : List WriteTask} {new : WriteTask} (hn : tasks[n]? = some task)
    (h : new.turnsLeft < task.turnsLeft) :
    ((tasks.set n new).map WriteTask.turnsLeft).sum < (tasks.map WriteTask.turnsLeft).sum := by
  induction tasks generalizing n with
  | nil => cases hn
  | cons first tasks ih =>
      cases n with
      | zero =>
          cases hn
          exact Nat.add_lt_add_right h _
      | succ n => exact Nat.add_lt_add_left (ih hn) _

theorem turnsLeft_put {stage : WriteStage} {filer : Filer} {files : FileTree}
    (hn : s.worker.tasks[n]? = some task) (hrule : filer.rule = s.worker.filer.rule) (h : { task with stage : WriteTask }.turnsLeft < task.turnsLeft) :
    (s.moved n ({ s.worker with filer }.put n task stage, files)).turnsLeft < s.turnsLeft := by
  have hsum := sum_map_set_lt hn h
  simp only [turnsLeft, moved, Worker.put, hrule]
  omega

theorem turnsLeft_hear {c : Call} {calls : List Call} (hu : s.worker.unscheduled = [])
    (hc : s.calls = c :: calls) :
    { s with worker := s.worker.hear c.message, calls : Session }.turnsLeft < s.turnsLeft := by
  simp only [turnsLeft, hu, hc, Worker.hear, Filer.prepare, List.map_cons, List.sum_cons, List.map_nil,
    List.sum_nil]
  omega

theorem InTurn.turnsLeft_schedule (h : InTurn trouble f t all messages m s) (hm : f.rule.mode = .append)
    (hu : s.worker.unscheduled ≠ []) :
    { s with worker := s.worker.schedule : Session }.turnsLeft < s.turnsLeft := by
  obtain ⟨hnil, -⟩ | ⟨r, requests, hcons, he⟩ := h.chain.schedule_eq hm
  · exact absurd hnil hu
  · simp only [turnsLeft, he, hcons, List.map_append, List.sum_append, List.map_cons, List.sum_cons,
      List.map_nil, List.sum_nil, WriteTask.turnsLeft, turnsOf]
    omega

theorem InTurn.isResolved (h : InTurn trouble f t all messages m s) (hu : s.worker.unscheduled = [])
    (hc : s.calls = []) (hn : s.worker.tasks[m]? = none) : s.isResolved = true := by
  have hall : ∀ task ∈ s.worker.tasks, task.stage.isEnded = true := by
    intro task hmem
    obtain ⟨n, hget⟩ := List.getElem?_of_mem hmem
    have hlt : n < s.worker.tasks.length := (List.getElem?_eq_some_iff.1 hget).1
    rw [isEnded_iff]
    exact h.chain.ended n task hget (Nat.lt_of_lt_of_le hlt (List.getElem?_eq_none_iff.1 hn))
  rw [Session.isResolved, isIdle, hu, hc]
  simpa using hall

/-- The first task that has not ended can get on. -/
theorem InTurn.progress_task (h : InTurn trouble f t all messages m s) (hm : f.rule.mode = .append)
    (hn : s.worker.tasks[m]? = some task) :
    ∃ m', InTurn trouble f t all messages m' (s.turn trouble (.task m)) ∧
      (s.turn trouble (.task m)).turnsLeft < s.turnsLeft := by
  cases hs : task.stage with
  | ended => exact absurd hs (h.chain.next task hn)
  | waiting =>
      refine ⟨m, ?_⟩
      rw [turn_task, proceedUnder_of_waiting hn hs, if_pos (h.chain.isReleased hn)]
      refine ⟨h.begin hn hs, turnsLeft_put hn rfl ?_⟩
      simp only [WriteTask.turnsLeft, hs]
      exact Nat.lt_succ_self _
  | writing w =>
      cases hw : w.result? with
      | none =>
          refine ⟨m, ?_⟩
          rw [turn_task, proceedUnder_of_writing hn hs hw, h.chain.rule, hm]
          refine ⟨h.advance hn hs hw, turnsLeft_put hn rfl ?_⟩
          simp only [WriteTask.turnsLeft, hs]
          exact Nat.succ_lt_succ (Writing.left_stepUnder hw)
      | some result =>
          cases w with
          | finished result =>
              refine ⟨m + 1, ?_⟩
              rw [turn_task, proceedUnder_of_finished hn hs]
              refine ⟨h.finish hn hs, turnsLeft_put hn rfl ?_⟩
              simp only [WriteTask.turnsLeft, hs]
              exact Nat.succ_pos _
          | _ => cases hw

/-- As long as not all tasks have ended, the caller or the first task that has not ended can get on. -/
theorem InTurn.progress (h : InTurn trouble f t all messages m s) (hm : f.rule.mode = .append)
    (hr : s.isResolved ≠ true) :
    ∃ turn messages' m', InTurn trouble f t all messages' m' (s.turn trouble turn) ∧
      (s.turn trouble turn).turnsLeft < s.turnsLeft := by
  cases hu : s.worker.unscheduled with
  | cons r requests =>
      have hturn : s.turn trouble .caller = { s with worker := s.worker.schedule } := by
        simp only [Session.turn, Session.call, hu]
      refine ⟨.caller, messages, m, ?_⟩
      rw [hturn]
      exact ⟨h.schedule hm, h.turnsLeft_schedule hm (by rw [hu]; nofun)⟩
  | nil =>
      cases hc : s.calls with
      | cons c calls =>
          have hturn : s.turn trouble .caller = { s with worker := s.worker.hear c.message, calls } := by
            simp only [Session.turn, Session.call, hu, hc]
          refine ⟨.caller, messages ++ [c.message], m, ?_⟩
          rw [hturn]
          exact ⟨h.hear hu hc, turnsLeft_hear hu hc⟩
      | nil =>
          cases hn : s.worker.tasks[m]? with
          | none => exact absurd (h.isResolved hu hc hn) hr
          | some task => exact ⟨.task m, messages, h.progress_task hm hn⟩

theorem InTurn.resolves (h : InTurn trouble f t all messages m s) (hm : f.rule.mode = .append) :
    ∃ schedule, (s.run trouble schedule).isResolved = true := by
  induction hleft : s.turnsLeft using Nat.strongRecOn generalizing messages m s with
  | ind bound ih =>
      subst hleft
      by_cases hr : s.isResolved = true
      · exact ⟨[], hr⟩
      · obtain ⟨turn, messages', m', h', hlt⟩ := h.progress hm hr
        obtain ⟨schedule, hs⟩ := ih _ hlt h' rfl
        exact ⟨turn :: schedule, hs⟩

/-! ## What a run leaves -/

theorem oneByOne_mono {count more : Nat} (h : count ≤ more) : oneByOne count <+: oneByOne more := by
  obtain ⟨k, rfl⟩ := Nat.exists_eq_add_of_le h
  induction k with
  | zero => exact List.prefix_refl _
  | succ k ih =>
      have hs : oneByOne (count + (k + 1)) = oneByOne (count + k) ++ _ := oneByOne_succ (count + k)
      rw [hs]
      exact (ih (Nat.le_add_right _ _)).trans (List.prefix_append _ _)

theorem InTurn.log_prefix (h : InTurn trouble f t all messages m s) :
    s.log <+: oneByOne s.worker.tasks.length := by
  rw [h.log]
  cases hn : s.worker.tasks[m]? with
  | none =>
      rw [logOf, Option.map_none, List.append_nil]
      exact oneByOne_mono h.chain.le
  | some task =>
      have hlog : oneByOne m ++ logOf m (some task) <+: oneByOne (m + 1) := by
        rw [oneByOne_succ, List.prefix_append_right_inj, logOf, Option.map_some]
        split
        · split
          · exact ⟨[.ended m], rfl⟩
          · exact List.prefix_refl _
        · exact List.nil_prefix
      exact hlog.trans (oneByOne_mono (List.getElem?_eq_some_iff.1 hn).1)

theorem InTurn.requests_prefix (h : InTurn trouble f t all messages m s) :
    s.worker.tasks.map WriteTask.request <+: f.requests all := by
  have hall : f.requests all = f.requests messages ++ f.requests (s.calls.map Call.message) := by
    rw [← h.calls, Filer.requests, List.flatMap_append]
    rfl
  rw [hall, ← h.chain.requests, List.append_assoc]
  exact List.prefix_append _ _

theorem InTurn.alone {n n' : Nat} {task' : WriteTask} (h : InTurn trouble f t all messages m s)
    (hn : s.worker.tasks[n]? = some task) (hn' : s.worker.tasks[n']? = some task') (hp : task.inProgress = true)
    (hp' : task'.inProgress = true) : n = n' := by
  have hw {n : Nat} {task : WriteTask} (hn : s.worker.tasks[n]? = some task) (hp : task.inProgress = true) :
      n = m := by
    cases hs : task.stage with
    | writing w => exact h.chain.eq_of_writing hn hs
    | _ => simp [WriteTask.inProgress, hs] at hp
  rw [hw hn hp, hw hn' hp']

theorem InTurn.resolved (h : InTurn trouble f t all messages m s) (hm : f.rule.mode = .append)
    (hr : s.isResolved = true) :
    s.worker.tasks.map WriteTask.request = f.requests all ∧ s.log = oneByOne (f.requests all).length ∧
      (s.worker.filer, s.files) = f.storeAllUnder trouble t all := by
  rw [Session.isResolved, Bool.and_eq_true, List.isEmpty_iff] at hr
  obtain ⟨hc, hi⟩ := hr
  have hall : messages = all := by simpa [hc] using h.calls
  subst hall
  obtain ⟨hn, htake⟩ := h.chain.idle hi
  have hun : s.worker.unscheduled = [] := by simp_all [isIdle]
  have hreq : s.worker.tasks.map WriteTask.request = f.requests messages := by
    rw [← h.chain.requests, hun, List.append_nil]
  have hlen : m = (f.requests messages).length := by
    refine Nat.le_antisymm h.chain.le_requests ?_
    rw [← hreq, List.length_map]
    exact List.getElem?_eq_none_iff.1 hn
  refine ⟨hreq, ?_, ?_⟩
  · rw [h.log, hn, hlen]
    exact List.append_nil _
  · have hcur := h.current
    have hf := h.filer
    rw [hn, htake] at hcur
    rw [htake] at hf
    cases hcur with
    | none same => rw [Filer.storeAllUnder_eq, hm, hf, same]

/-- **Appends are carried out in the order of the calls.** For all calls, troubles and schedules at most one
write is in progress. The tasks are scheduled in the order of the requests of the messages, and their writes
begin and end one after the other in this order. The schedule can be continued until all tasks have ended.
Then each request was written once, and the counters and the files are those of storing the messages one
after the other, under the same troubles; without any, those of the filer's own `storeAll`. -/
theorem appends_in_call_order (f : Filer) (hm : f.rule.mode = .append) (t : FileTree) (calls : List Call)
    (trouble : Nat → Trouble) (schedule : List Turn) :
    let s := (start f calls t).run trouble schedule
    let messages := calls.map Call.message
    (∀ (n n' : Nat) (task task' : WriteTask),
      s.worker.tasks[n]? = some task → s.worker.tasks[n']? = some task' →
      task.inProgress = true → task'.inProgress = true → n = n') ∧
    s.worker.tasks.map WriteTask.request <+: f.requests messages ∧
    s.log <+: oneByOne s.worker.tasks.length ∧
    (∃ more, (s.run trouble more).isResolved = true) ∧
    (s.isResolved = true →
      s.worker.tasks.map WriteTask.request = f.requests messages ∧
      s.log = oneByOne (f.requests messages).length ∧
      (s.worker.filer, s.files) = f.storeAllUnder trouble t messages ∧
      (trouble = (fun _ => .calm) → (s.worker.filer, s.files) = f.storeAll t messages)) := by
  intro s messages
  obtain ⟨heard, m, h⟩ := (inTurn_start trouble f t calls).run hm schedule
  refine ⟨fun n n' task task' hn hn' => h.alone hn hn', h.requests_prefix, h.log_prefix, h.resolves hm,
    fun hr => ?_⟩
  obtain ⟨hreq, hlog, hend⟩ := h.resolved hm hr
  refine ⟨hreq, hlog, hend, fun hcalm => hend.trans ?_⟩
  rw [hcalm, Filer.storeAllUnder_calm]

/-- The later tasks have their turns first, and the second write goes wrong. -/
theorem appends_in_call_order_three :
    let f : Filer :=
      { rule := { name := "r", source := ⟨"a"⟩, storePath := "d", storeName := "f", mode := .append } }
    let calls : List Call := [.storeDocument [("k", .null)], .store {}, .storeDocument [("k", .bool true)]]
    let trouble (n : Nat) : Trouble := fun t _ => if n = 1 then some (t, .file "d/f" .notEmpty) else none
    let schedule := List.replicate 6 Turn.caller ++ (List.replicate 14 [.task 2, .task 1, .task 0]).flatten
    let s := (start f calls {}).run trouble schedule
    f.rule.mode = .append ∧ s.isResolved = true ∧
      s.log = [.began 0, .ended 0, .began 1, .ended 1, .began 2, .ended 2] ∧
      s.worker.filer.counters = { received := 3, stored := 2, failed := 1 } ∧
      s.files.get? ["d", "f"] = some (.file "\x7b\"k\":null\x7d\n\x7b\"k\":true\x7d\n".toUTF8) := by
  intro f calls trouble schedule s
  obtain ⟨-, -, -, -, hresolved⟩ := appends_in_call_order f rfl {} calls trouble schedule
  have hr : s.isResolved = true := by decide +kernel
  obtain ⟨-, hlog, hend, -⟩ := hresolved hr
  obtain ⟨hfiler, hfiles⟩ := Prod.mk.inj hend
  refine ⟨rfl, hr, hlog.trans (by decide +kernel), ?_, ?_⟩
  · rw [hfiler]
    decide +kernel
  · rw [hfiles]
    apply FileTree.fileAt?_eq_some.1
    decide +kernel

end Session

end FeedFiler
