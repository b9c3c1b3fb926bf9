import Mathlib.Algebra.GroupWithZero.Nat
import Mathlib.Data.List.DropRight
import Mathlib.Data.List.Pairwise
import FeedFiler.ErrorLog

/-!
# What an error log covers

Errors reach a log one after the other. Each of them is covered by one line or is still held back, and the
lines keep their distance without holding back more than they must.
-/

namespace FeedFiler.ErrorLog

/-! ## Histories -/

/-- An error that reached a log: the line that it wrote, if it wrote one, and the log after it. -/
structure Entry where
  failure : Failure
  line : Option Line
  log : ErrorLog
deriving DecidableEq

/-- What becomes of errors that come one after the other. -/
def entries (log : ErrorLog) : List Failure → List Entry
  | [] => []
  | failure :: failures =>
    let (line, after) := log.report failure
    ⟨failure, line, after⟩ :: after.entries failures

/-- What becomes of errors that reach a new log. -/
def history (label : String) (interval : Nat) (failures : List Failure) : List Entry :=
  entries { label, interval } failures

/-- The entries with a line. -/
def written (past : List Entry) : List Entry := past.filter (·.line.isSome)

/-- The entries behind the last one with a line. -/
def heldBack (past : List Entry) : List Entry := past.rtakeWhile (·.line.isNone)

/-- How many errors the lines cover. -/
def covered (past : List Entry) : Nat := ((past.filterMap (·.line)).map Line.covered).sum

/-- The last line, if there is one, is an interval or more away. -/
def Clear (interval : Nat) (past : List Entry) (now : Nat) : Prop :=
  ∀ last ∈ (written past).getLast?, last.failure.time + interval ≤ now

instance (interval : Nat) (past : List Entry) (now : Nat) : Decidable (Clear interval past now) :=
  inferInstanceAs (Decidable (∀ last ∈ (written past).getLast?, _))

variable {log : ErrorLog} {past : List Entry} {entry : Entry} {failure : Failure} {label : String}
  {interval now : Nat}

theorem map_failure_entries (log : ErrorLog) (failures : List Failure) :
    (log.entries failures).map Entry.failure = failures := by
  induction failures generalizing log with
  | nil => rfl
  | cons failure failures ih => rw [entries, List.map_cons, ih]

theorem written_concat (past : List Entry) (entry : Entry) :
    written (past ++ [entry]) = written past ++ if entry.line.isSome then [entry] else [] := by
  rw [written, List.filter_append, List.filter_singleton, Bool.cond_eq_ite]
  rfl

theorem heldBack_concat (past : List Entry) (entry : Entry) :
    heldBack (past ++ [entry]) = if entry.line.isSome then [] else heldBack past ++ [entry] := by
  rw [heldBack, List.rtakeWhile_concat]
  cases entry.line <;> rfl

theorem covered_concat (past : List Entry) (entry : Entry) :
    covered (past ++ [entry]) = covered past + entry.line.elim 0 Line.covered := by
  rw [covered, List.filterMap_append, List.map_append, List.sum_append]
  cases h : entry.line <;> simp [covered, h]

/-! ## One more error -/

theorem report_of_due (h : log.due failure.time = true) : log.report failure =
    (some (.covering log.label failure.message failure.cause (log.pending + 1) (log.total + 1)),
      { log with last := some failure.time, pending := 0, total := log.total + 1 }) := by
  rw [report, record, if_pos h]
  rfl

theorem report_of_not_due (h : log.due failure.time = false) : log.report failure =
    (none, { log with pending := log.pending + 1, total := log.total + 1 }) := by
  rw [report, record, if_neg (by rw [h]; exact Bool.false_ne_true)]
  rfl

/-- What a log holds is what became of the errors that reached it. -/
structure Tells (label : String) (interval : Nat) (past : List Entry) (log : ErrorLog) : Prop where
  label : log.label = label
  interval : log.interval = interval
  last : log.last = (written past).getLast?.map (·.failure.time)
  pending : log.pending = (heldBack past).length
  total : log.total = past.length
  covered : covered past + log.pending = log.total

theorem tells_new (label : String) (interval : Nat) : Tells label interval [] { label, interval } :=
  ⟨rfl, rfl, rfl, rfl, rfl, rfl⟩

theorem Tells.due_iff (h : Tells label interval past log)
    (hp : ∀ last ∈ (written past).getLast?, last.failure.time ≤ now) :
    log.due now = true ↔ Clear interval past now := by
  rw [due, h.last, h.interval, Clear]
  cases hlast : (written past).getLast? with
  | none => simp
  | some last =>
      have hle : last.failure.time ≤ now := hp last hlast
      simp [Nat.le_sub_iff_add_le' hle]

/-- An error adds one to what is told. -/
theorem Tells.report (h : Tells label interval past log) (failure : Failure) :
    Tells label interval (past ++ [⟨failure, (log.report failure).1, (log.report failure).2⟩])
      (log.report failure).2 := by
  have hcovered := h.covered
  cases hdue : log.due failure.time with
  | true =>
      rw [report_of_due hdue]
      refine ⟨h.label, h.interval, ?_, ?_, ?_, ?_⟩
      · simp [written_concat]
      · simp [heldBack_concat]
      · simp [h.total]
      · simp only [covered_concat, Option.elim_some, Line.covered_covering _ _ _ (Nat.succ_pos _)]
        omega
  | false =>
      rw [report_of_not_due hdue]
      refine ⟨h.label, h.interval, ?_, ?_, ?_, ?_⟩
      · simp [written_concat, h.last]
      · simp [heldBack_concat, h.pending]
      · simp [h.total]
      · simp only [covered_concat, Option.elim_none]
        omega

/-- A line is written exactly when the last one is far enough away, and it says what it covers. -/
theorem Tells.line (h : Tells label interval past log)
    (hp : ∀ last ∈ (written past).getLast?, last.failure.time ≤ failure.time) :
    ((log.report failure).1.isSome ↔ Clear interval past failure.time) ∧
    ∀ line ∈ (log.report failure).1, line = .covering label failure.message failure.cause
      ((heldBack past).length + 1) (past.length + 1) := by
  rw [← h.due_iff hp]
  cases hdue : log.due failure.time with
  | true =>
      rw [report_of_due hdue, h.label, h.pending, h.total]
      exact ⟨by simp, fun line hline => (Option.some.inj hline).symm⟩
  | false =>
      rw [report_of_not_due hdue]
      exact ⟨by simp, nofun⟩

/-! ## All errors -/

/-- Each entry comes from reporting its error to a log that tells the entries before. -/
theorem Tells.entries (h : Tells label interval past log) {failures : List Failure} {front rest : List Entry}
    (hs : log.entries failures = front ++ entry :: rest) :
    ∃ before, Tells label interval (past ++ front) before ∧
      before.report entry.failure = (entry.line, entry.log) := by
  induction failures generalizing past log front with
  | nil => simp [ErrorLog.entries] at hs
  | cons failure failures ih =>
      rw [ErrorLog.entries] at hs
      cases front with
      | nil =>
          obtain ⟨rfl, -⟩ := List.cons.inj hs
          exact ⟨log, by rwa [List.append_nil], rfl⟩
      | cons first front =>
          -- the first entry is past for the log that it leaves behind
          obtain ⟨rfl, htail⟩ := List.cons.inj hs
          obtain ⟨before, hbefore, hreport⟩ := ih (h.report failure) htail
          exact ⟨before, by rwa [List.append_assoc] at hbefore, hreport⟩

/-- Lines that each keep their distance from the last one before keep it from all. -/
theorem pairwise_written {all : List Entry} (ho : all.Pairwise fun a b => a.failure.time ≤ b.failure.time)
    (h : ∀ past entry rest, all = past ++ entry :: rest → entry.line.isSome →
      Clear interval past entry.failure.time) :
    (written all).Pairwise fun a b => a.failure.time + interval ≤ b.failure.time := by
  induction all using List.reverseRecOn with
  | nil => exact .nil
  | append_singleton all entry ih =>
      obtain ⟨hall, -, -⟩ := List.pairwise_append.1 ho
      have hih := ih hall fun past e rest hs => h past e (rest ++ [entry]) (by rw [hs]; simp)
      rw [written_concat]
      split
      · next hline =>
          refine List.pairwise_append.2 ⟨hih, List.pairwise_singleton _ _, fun a ha b hb => ?_⟩
          obtain rfl := List.mem_singleton.1 hb
          have hne : written all ≠ [] := List.ne_nil_of_mem ha
          have hclear := h all b [] rfl hline _ (List.getLast_mem_getLast? hne)
          -- of the lines before, the last one is the latest
          have : Std.Refl fun a b : Entry => a.failure.time ≤ b.failure.time := ⟨fun _ => Nat.le_refl _⟩
          have hlast : a.failure.time ≤ ((written all).getLast hne).failure.time :=
            (hall.filter _).rel_getLast ha
          omega
      · rwa [List.append_nil]

/-- **An error log covers each error once.** Errors come one after the other, none before the one that
came last. After each of them the log has counted all so far; what its lines cover and what it still holds
back make up this number; and what it holds back came after the last line, so nothing is held back when a line
is written. A line is written exactly if it is the first or comes an interval or more after the last one, and it
covers its own error and those since that line. Any two lines are an interval or more apart. -/
theorem errors_covered_once (label : String) (interval : Nat) {failures : List Failure}
    (h : failures.Pairwise fun a b => a.time ≤ b.time) :
    (history label interval failures).map Entry.failure = failures ∧
      (∀ past entry rest, history label interval failures = past ++ entry :: rest →
        entry.log.total = past.length + 1 ∧
        covered (past ++ [entry]) + entry.log.pending = entry.log.total ∧
        entry.log.pending = (heldBack (past ++ [entry])).length ∧
        (entry.line.isSome → entry.log.pending = 0) ∧
        (entry.line.isSome ↔ Clear interval past entry.failure.time) ∧
        ∀ line ∈ entry.line, line = .covering label entry.failure.message entry.failure.cause
          ((heldBack past).length + 1) (past.length + 1)) ∧
      (written (history label interval failures)).Pairwise fun a b =>
        a.failure.time + interval ≤ b.failure.time := by
  have hfailures := map_failure_entries { label, interval } failures
  have ho : (history label interval failures).Pairwise fun a b => a.failure.time ≤ b.failure.time := by
    rw [← hfailures, List.pairwise_map] at h
    exact h
  have hentry : ∀ past entry rest, history label interval failures = past ++ entry :: rest →
      Tells label interval (past ++ [entry]) entry.log ∧
      (entry.line.isSome ↔ Clear interval past entry.failure.time) ∧
      ∀ line ∈ entry.line, line = .covering label entry.failure.message entry.failure.cause
        ((heldBack past).length + 1) (past.length + 1) := by
    intro past entry rest hs
    obtain ⟨before, hbefore, hreport⟩ := (tells_new label interval).entries hs
    rw [List.nil_append] at hbefore
    have hpast : ∀ last ∈ (written past).getLast?, last.failure.time ≤ entry.failure.time :=
      fun last hlast => (List.pairwise_append.1 (hs ▸ ho)).2.2 last
        (List.mem_of_mem_filter (List.mem_of_getLast? hlast)) entry List.mem_cons_self
    have htells := hbefore.report entry.failure
    have hline := hbefore.line hpast
    rw [hreport] at htells hline
    exact ⟨htells, hline⟩
  refine ⟨hfailures, fun past entry rest hs => ?_,
    pairwise_written ho fun past entry rest hs => (hentry past entry rest hs).2.1.1⟩
  obtain ⟨htells, hline⟩ := hentry past entry rest hs
  refine ⟨by rw [htells.total, List.length_append, List.length_singleton], htells.covered, htells.pending,
    fun hsome => ?_, hline⟩
  rw [htells.pending, heldBack_concat, if_pos hsome, List.length_nil]

/-- Errors of a full disk. -/
def burst : List Failure :=
  [0, 4, 10, 10, 25].map fun time => { message := "record write failed", cause := "disk full", time }

theorem errors_covered_once_burst :
    (written (history "vix" 10 burst)).map (·.failure.time) = [0, 10, 25] ∧
    (written (history "vix" 10 burst)).Pairwise (fun a b => a.failure.time + 10 ≤ b.failure.time) ∧
    ∃ past entry, history "vix" 10 burst = past ++ [entry] ∧
      covered (past ++ [entry]) + entry.log.pending = 5 ∧ entry.log.pending = 0 ∧
      entry.line =
        some ⟨"vix", "record write failed (rate-limited)", "disk full", some 1, 5⟩ := by
  have hsplit : history "vix" 10 burst =
      (history "vix" 10 burst).take 4 ++ [(history "vix" 10 burst)[4]] := by decide +kernel
  obtain ⟨-, hentry, hspaced⟩ := errors_covered_once "vix" 10 (show burst.Pairwise _ by decide)
  obtain ⟨htotal, hcovered, -, hcleared, hclear, -⟩ := hentry _ _ _ hsplit
  refine ⟨by decide +kernel, hspaced, _, _, hsplit, hcovered.trans htotal, hcleared (hclear.2 ?_), ?_⟩
  · decide +kernel
  · decide +kernel

end FeedFiler.ErrorLog
