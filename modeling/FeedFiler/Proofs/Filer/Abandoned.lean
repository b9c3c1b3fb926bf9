import FeedFiler.Proofs.Filer.Storing
import FeedFiler.Proofs.Files.InTheWay

/-!
# Requests without a directory

A request whose directory cannot be made, because a file is in the way, is counted as failed and leaves no
other trace. The requests before and after it find the same files and have the same results as without it,
although it is them who decide where files are in the way.
-/

namespace FeedFiler

namespace FileTree

/-- A request that is carried out, with the files before and after it. -/
structure Attempt where
  request : WriteRequest
  before : FileTree
  after : FileTree
  result : Except StoreError String

/-- The directory could not be made. -/
def Attempt.isAbandoned (a : Attempt) : Bool :=
  match a.result with
  | .error (.directory _ _) => true
  | _ => false

variable (mode : StoreMode)

/-- Carries out requests one after the other; how each of them went. -/
def attempts : List WriteRequest → FileTree → List Attempt
  | [], _ => []
  | r :: requests, t =>
    ⟨r, t, (t.store mode r).1, (t.store mode r).2⟩ :: attempts requests (t.store mode r).1

/-- The attempts that had their directory. -/
def unabandoned (all : List Attempt) : List Attempt := all.filter fun a => !a.isAbandoned

def requestsOf (all : List Attempt) : List WriteRequest := all.map (·.request)

/-- Every request that is abandoned has a file in its way. -/
def OnlyFilesInTheWay (all : List Attempt) : Prop :=
  ∀ a ∈ all, a.isAbandoned = true → a.before.FileInTheWay a.request.dir

variable {mode} {t : FileTree} {r : WriteRequest} {requests : List WriteRequest}

theorem store_of_fileInTheWay (h : t.FileInTheWay r.dir) (mode : StoreMode) :
    ∃ cause, t.store mode r = (t, .error (.directory r.dir cause)) := by
  obtain ⟨cause, hm⟩ := makeDirs_of_fileInTheWay h
  exact ⟨cause, by rw [store, hm]⟩

theorem after_of_abandoned {a : Attempt} (ha : a ∈ attempts mode requests t)
    (h : OnlyFilesInTheWay (attempts mode requests t)) (hab : a.isAbandoned = true) : a.after = a.before := by
  have hway := h a ha hab
  clear h
  induction requests generalizing t with
  | nil => cases ha
  | cons r requests ih =>
      rcases List.mem_cons.1 ha with rfl | ha
      · obtain ⟨cause, hs⟩ := store_of_fileInTheWay hway mode
        exact congrArg Prod.fst hs
      · exact ih ha

/-- The first request is abandoned without effect, or it has its directory. -/
theorem store_cases_of_onlyFilesInTheWay (h : OnlyFilesInTheWay (attempts mode (r :: requests) t)) :
    OnlyFilesInTheWay (attempts mode requests (t.store mode r).1) ∧
      ((∃ cause, t.store mode r = (t, .error (.directory r.dir cause))) ∨
        Attempt.isAbandoned ⟨r, t, (t.store mode r).1, (t.store mode r).2⟩ = false) := by
  obtain ⟨hr, hrest⟩ := List.forall_mem_cons.1 h
  refine ⟨hrest, ?_⟩
  cases hab : Attempt.isAbandoned ⟨r, t, (t.store mode r).1, (t.store mode r).2⟩ with
  | true => exact .inl (store_of_fileInTheWay (hr hab) mode)
  | false => exact .inr rfl

/-- The requests that have their directory go the same way when they are carried out alone. -/
theorem attempts_unabandoned (h : OnlyFilesInTheWay (attempts mode requests t)) :
    attempts mode (requestsOf (unabandoned (attempts mode requests t))) t =
      unabandoned (attempts mode requests t) := by
  induction requests generalizing t with
  | nil => rfl
  | cons r requests ih =>
      obtain ⟨hrest, ⟨cause, hs⟩ | hab⟩ := store_cases_of_onlyFilesInTheWay h
      · simp only [attempts, hs] at hrest ⊢
        rw [unabandoned, List.filter_cons_of_neg (by simp [Attempt.isAbandoned])]
        exact ih hrest
      · have hcons : unabandoned (attempts mode (r :: requests) t) =
            ⟨r, t, (t.store mode r).1, (t.store mode r).2⟩ ::
              unabandoned (attempts mode requests (t.store mode r).1) :=
          List.filter_cons_of_pos (by rw [hab]; rfl)
        rw [hcons, requestsOf, List.map_cons, attempts]
        exact congrArg _ (ih hrest)

/-- What is left of the files, and how many requests succeed and fail. -/
theorem storeEach_unabandoned (h : OnlyFilesInTheWay (attempts mode requests t)) :
    let kept := storeEach mode (requestsOf (unabandoned (attempts mode requests t))) t
    (storeEach mode requests t).1 = kept.1 ∧ (storeEach mode requests t).2.count true = kept.2.count true ∧
      (storeEach mode requests t).2.count false =
        kept.2.count false + (attempts mode requests t).countP (·.isAbandoned) := by
  induction requests generalizing t with
  | nil => exact ⟨rfl, rfl, rfl⟩
  | cons r requests ih =>
      obtain ⟨hrest, ⟨cause, hs⟩ | hab⟩ := store_cases_of_onlyFilesInTheWay h
      · have hfails : (.error (.directory r.dir cause) : Except StoreError String).isOk = false := rfl
        rw [hs] at hrest
        obtain ⟨hfiles, hstored, hfailed⟩ := ih hrest
        simp only [attempts, storeEach, hs, hfails]
        rw [unabandoned, List.filter_cons_of_neg (by simp [Attempt.isAbandoned]),
          List.countP_cons_of_pos (by rfl), List.count_cons_of_ne (by decide), List.count_cons_self, hfailed]
        exact ⟨hfiles, hstored, rfl⟩
      · obtain ⟨hfiles, hstored, hfailed⟩ := ih hrest
        rw [attempts, unabandoned, List.filter_cons_of_pos (by rw [hab]; rfl),
          List.countP_cons_of_neg (by rw [hab]; exact Bool.false_ne_true), requestsOf, List.map_cons]
        simp only [storeEach, List.count_cons]
        rw [hstored, hfailed, Nat.add_right_comm]
        exact ⟨hfiles, rfl, rfl⟩

end FileTree

namespace Filer

open FileTree

theorem carryOut_of_fileInTheWay {t : FileTree} {r : WriteRequest} (h : t.FileInTheWay r.dir) (f : Filer) :
    carryOut [r] f t = (0, { f with counters := { f.counters with failed := f.counters.failed + 1 } }, t) := by
  obtain ⟨cause, hs⟩ := store_of_fileInTheWay h f.rule.mode
  simp only [carryOut, hs]
  rfl

/-- **A request without a directory leaves no trace.** When no directory fails but for a file in its way: a
request that is abandoned leaves the files as they are and counts one failure. The other requests find the
same files, have the same results and leave the same files as when they alone are carried out, and the
counters differ by the abandoned requests. -/
theorem abandoned_leave_no_trace (f : Filer) (messages : List Document) (t : FileTree) :
    let all := attempts f.rule.mode (f.requests messages) t
    let others := unabandoned all
    let alone := (carryOut (requestsOf others) (f.after messages []) t).2
    OnlyFilesInTheWay all →
    (∀ a ∈ all, a.isAbandoned = true → a.after = a.before ∧ ∀ g : Filer,
      carryOut [a.request] g a.before =
        (0, { g with counters := { g.counters with failed := g.counters.failed + 1 } }, a.before)) ∧
    attempts f.rule.mode (requestsOf others) t = others ∧
    f.storeAll t messages = ({ alone.1 with counters := { alone.1.counters with
      failed := alone.1.counters.failed + all.countP (·.isAbandoned) } }, alone.2) := by
  intro all others alone h
  refine ⟨fun a ha hab => ⟨after_of_abandoned ha h hab, carryOut_of_fileInTheWay (h a ha hab)⟩,
    attempts_unabandoned h, ?_⟩
  obtain ⟨hfiles, hstored, hfailed⟩ := storeEach_unabandoned h
  have halone : alone = _ := carryOut_after f messages [] (requestsOf others) t
  rw [storeAll_eq, halone, hfiles]
  simp only [after, FilerCounters.after, List.nil_append, hstored, hfailed, Nat.add_assoc]
  rfl

/-- A message that writes the file that is in the way of the next one, whose directory is the file before that. -/
theorem abandoned_leave_no_trace_behind_a_file :
    let rule : FilerRule := {
      name := "r"
      source := ⟨"a"⟩
      storePath := "\x7b\x7bp\x7d\x7d"
      storeName := "\x7b\x7bn\x7d\x7d" }
    let message (dir name : String) : Document := [("p", .string dir), ("n", .string name)]
    let s := ({ rule } : Filer).storeAll {} [message "d" "x", message "d/x/y" "z", message "d" "w"]
    let u := (carryOut [rule.requestOf (message "d" "x"), rule.requestOf (message "d" "w")] { rule } {}).2.2
    s.1.counters = { received := 3, stored := 2, failed := 1 } ∧ s.2 = u ∧ u.isDir "d/x" = false := by
  intro rule message s u
  have hway : OnlyFilesInTheWay (attempts rule.mode (requests { rule }
      [message "d" "x", message "d/x/y" "z", message "d" "w"]) {}) := by
    intro a ha hab
    rcases ha with _ | ⟨_, _ | ⟨_, _ | ⟨_, ⟨⟩⟩⟩⟩
    · exact absurd hab (by decide +kernel)
    · refine ⟨"d/x", by decide +kernel, ["d", "x"], false, by decide +kernel, ?_⟩
      exact ⟨(message "d" "x").render.toUTF8, fileAt?_eq_some.1 (by decide +kernel)⟩
    · exact absurd hab (by decide +kernel)
  obtain ⟨-, -, hs⟩ := abandoned_leave_no_trace { rule } _ {} hway
  have hothers : requestsOf (unabandoned (attempts rule.mode (requests { rule }
      [message "d" "x", message "d/x/y" "z", message "d" "w"]) {})) =
        [rule.requestOf (message "d" "x"), rule.requestOf (message "d" "w")] := by
    decide +kernel
  rw [hothers] at hs
  refine ⟨?_, ?_, by decide +kernel⟩
  · rw [show s = _ from hs]
    decide +kernel
  · rw [show s = _ from hs]
    rfl

end Filer

end FeedFiler
