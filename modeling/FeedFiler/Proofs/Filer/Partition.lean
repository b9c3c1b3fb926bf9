import FeedFiler.Proofs.Files.Operations
import FeedFiler.Proofs.Filer.Storing
import FeedFiler.Proofs.Json.Transcript

/-!
# Records distributed over files

A filer that appends adds each record to the file that the record's own path leads to. When all writes
succeed, every file holds what it held before and then its records, in the order in which they came.
-/

namespace FeedFiler

/-! ## One append -/

namespace FileTree

/-- The location of the file that a path names. -/
def fileOf? (t : FileTree) (path : String) : Option Location :=
  match t.place path with
  | .ok (.entry loc false) => some loc
  | _ => none

/-- A file stands at the location. -/
def HasFile (t : FileTree) (loc : Location) : Prop := ∃ content, t.get? loc = some (.file content)

variable {t t' : FileTree} {path : String} {loc : Location} {r : WriteRequest}

theorem fileOf?_eq_some : t.fileOf? path = some loc ↔ t.place path = .ok (.entry loc false) := by
  rw [fileOf?]
  split
  · next h => simp [h]
  · next h => exact iff_of_false nofun fun hp => h loc hp

theorem KeepsDirs.fileOf? (h : t.KeepsDirs t') (hf : t.fileOf? path = some loc) :
    t'.fileOf? path = some loc :=
  fileOf?_eq_some.2 (h.place (fileOf?_eq_some.1 hf))

theorem HasFile.get?_eq (h : t.HasFile loc) : t.get? loc = some (.file (t.contentAt loc)) := by
  obtain ⟨content, hc⟩ := h
  rw [contentAt, hc]

theorem contentAt_of_not_hasFile (h : ¬ t.HasFile loc) : t.contentAt loc = .empty := by
  rw [contentAt]
  split
  · next content hc => exact absurd ⟨content, hc⟩ h
  · rfl

/-- What a location has for a file is told by whether there is one and by its content. -/
theorem get?_file_congr (hf : t'.HasFile loc ↔ t.HasFile loc) (hc : t'.contentAt loc = t.contentAt loc)
    (content : ByteArray) : t'.get? loc = some (.file content) ↔ t.get? loc = some (.file content) := by
  constructor
  · intro h
    rw [(hf.1 ⟨content, h⟩).get?_eq, ← hc, contentAt, h]
  · intro h
    rw [(hf.2 ⟨content, h⟩).get?_eq, hc, contentAt, h]

/-- The file at one location has grown, and it is new if there was none. No other file is new or different. -/
structure Grows (t t' : FileTree) (loc : Location) (added : ByteArray) : Prop where
  keepsDirs : t.KeepsDirs t'
  content : ∀ l, t'.contentAt l = t.contentAt l ++ if loc = l then added else .empty
  hasFile : ∀ l, t'.HasFile l ↔ t.HasFile l ∨ loc = l

theorem AddsDirs.hasFile (h : t.AddsDirs t') (l : Location) : t'.HasFile l ↔ t.HasFile l :=
  exists_congr fun content => h.files l content

theorem AddsDirs.contentAt (h : t.AddsDirs t') (l : Location) : t'.contentAt l = t.contentAt l := by
  by_cases hf : t.HasFile l
  · have hget := (h.files l _).2 hf.get?_eq
    rw [FileTree.contentAt, hget]
  · rw [contentAt_of_not_hasFile hf, contentAt_of_not_hasFile (mt (h.hasFile l).1 hf)]

/-- An append that succeeds adds a line to the file that its path names. -/
theorem grows_of_store {result : String} (h : (t.store .append r).2 = .ok result) :
    ∃ loc, (t.store .append r).1.fileOf? r.path = some loc ∧
      Grows t (t.store .append r).1 loc (r.content ++ "\n").toUTF8 := by
  have hadds := addsDirs_makeDirs t r.dir
  rw [store] at h ⊢
  cases hm : t.makeDirs r.dir with
  | mk t₀ made =>
      rw [hm] at h hadds
      cases made with
      | error cause => cases h
      | ok u =>
          simp only [storeFile] at h ⊢
          cases ha : t₀.append r.path (r.content ++ "\n").toUTF8 with
          | error cause =>
              rw [ha] at h
              cases h
          | ok t₁ =>
              have hkeeps := keepsDirs_of_change ha
              obtain ⟨loc, hp, hd, rfl⟩ := change_eq_ok.1 ha
              have hne := place_entry_ne_nil hp
              refine ⟨loc, fileOf?_eq_some.2 (hkeeps.place hp), hadds.toKeepsDirs.trans hkeeps,
                fun l => ?_, fun l => ?_⟩
              · rw [← hadds.contentAt l, FileTree.contentAt, get?_put hne]
                by_cases hl : loc = l
                · subst hl
                  rw [if_pos rfl, if_pos rfl]
                · rw [if_neg (Ne.symm hl), if_neg hl, ByteArray.append_empty, FileTree.contentAt]
              · rw [← hadds.hasFile l, HasFile, get?_put hne]
                by_cases hl : loc = l
                · simp [hl]
                · simp [hl, Ne.symm hl, HasFile]

end FileTree

/-! ## Requests carried out one after the other -/

open FileTree

/-- The requests whose path names the file at a location. -/
def requestsAt (u : FileTree) (loc : Location) (requests : List WriteRequest) : List WriteRequest :=
  requests.filter fun r => u.fileOf? r.path = some loc

/-- The lines of some requests. -/
def linesOf (requests : List WriteRequest) : String :=
  String.ofList (requests.flatMap fun r => r.content.toList ++ ['\n'])

theorem linesOf_cons (r : WriteRequest) (requests : List WriteRequest) :
    linesOf (r :: requests) = r.content ++ "\n" ++ linesOf requests := by
  rw [← String.toList_inj]
  simp [linesOf]

/-- **Requests that all succeed add their lines to the files that their paths name.** -/
theorem storeEach_of_all_true {requests : List WriteRequest} {t u : FileTree}
    (hu : (storeEach .append requests t).1 = u)
    (h : ∀ written ∈ (storeEach .append requests t).2, written = true) :
    t.KeepsDirs u ∧ (∀ r ∈ requests, ∃ loc, u.fileOf? r.path = some loc) ∧
      (∀ l, u.contentAt l = t.contentAt l ++ (linesOf (requestsAt u l requests)).toUTF8) ∧
      ∀ l, u.HasFile l ↔ t.HasFile l ∨ ∃ r ∈ requests, u.fileOf? r.path = some l := by
  induction requests generalizing t with
  | nil =>
      cases hu
      rw [storeEach]
      refine ⟨.refl t, by simp, fun l => ?_, fun l => by simp⟩
      have hnil : (linesOf (requestsAt t l [])).toUTF8 = .empty := by simp [requestsAt, linesOf]
      rw [hnil, ByteArray.append_empty]
  | cons r requests ih =>
      simp only [storeEach, List.mem_cons, forall_eq_or_imp] at hu h
      obtain ⟨hr, hrest⟩ := h
      obtain ⟨result, hresult⟩ : ∃ result, (t.store .append r).2 = .ok result := by
        cases hs : (t.store .append r).2 with
        | ok result => exact ⟨result, rfl⟩
        | error cause =>
            rw [hs] at hr
            cases hr
      obtain ⟨loc, hloc, hgrows⟩ := grows_of_store hresult
      obtain ⟨hkeeps, hpaths, hcontent, hfiles⟩ := ih hu hrest
      have hloc := hkeeps.fileOf? hloc
      refine ⟨hgrows.keepsDirs.trans hkeeps, ?_, fun l => ?_, fun l => ?_⟩
      · rintro r' hr'
        rcases List.mem_cons.1 hr' with rfl | hr'
        · exact ⟨loc, hloc⟩
        · exact hpaths r' hr'
      · rw [hcontent, hgrows.content, ByteArray.append_assoc]
        refine congrArg (t.contentAt l ++ ·) ?_
        by_cases hl : loc = l
        · simp [requestsAt, hloc, hl, linesOf_cons]
        · simp [requestsAt, hloc, hl]
      · rw [hfiles, hgrows.hasFile, or_assoc]
        simp [hloc]

/-! ## Records -/

namespace Filer

/-- The documents that are made of the admitted messages, in the order of the messages. -/
def records (f : Filer) (messages : List Document) : List Document :=
  (messages.filter f.rule.admits).flatMap f.rule.reshape.apply

/-- The location of the file that the path of a record leads to. -/
def destination? (f : Filer) (t : FileTree) (record : Document) : Option Location :=
  t.fileOf? (f.rule.requestOf record).path

variable {f : Filer} {t : FileTree} {messages : List Document}

theorem requests_eq_records (f : Filer) (messages : List Document) :
    f.requests messages = (f.records messages).map f.rule.requestOf := by
  induction messages with
  | nil => rfl
  | cons message messages ih =>
      have hr : f.requests (message :: messages) = f.rule.requests message ++ f.requests messages := rfl
      rw [hr, ih, records, records, List.filter_cons, FilerRule.requests]
      by_cases hm : f.rule.admits message = true
      · rw [if_pos hm, if_pos hm, List.flatMap_cons, List.map_append]
      · rw [if_neg hm, if_neg hm, List.nil_append]

/-- No write failed. -/
theorem all_true_of_failed_eq (h : (f.storeAll t messages).1.counters.failed = f.counters.failed) :
    ∀ written ∈ (storeEach f.rule.mode (f.requests messages) t).2, written = true := by
  intro written hw
  rw [storeAll_eq] at h
  have hcount : (storeEach f.rule.mode (f.requests messages) t).2.count false = 0 :=
    Nat.add_left_cancel h
  cases written with
  | true => rfl
  | false => exact absurd hw (List.count_eq_zero.1 hcount)

theorem linesOf_records (f : Filer) (u : FileTree) (loc : Location) (records : List Document) :
    linesOf (requestsAt u loc (records.map f.rule.requestOf)) =
      transcript (records.filter fun record => f.destination? u record = some loc) := by
  rw [linesOf, requestsAt, transcript, List.filter_map, List.flatMap_map]
  rfl

/-- **A filer that appends distributes its records over the files without loss.** When all writes succeed,
the path of each record leads to exactly one file. Each such file holds what it held before and then the
records whose paths lead to it, in their order; behind any text each of them takes one line. No other file
is new or different. -/
theorem records_partitioned (hm : f.rule.mode = .append)
    (hs : (f.storeAll t messages).1.counters.failed = f.counters.failed) :
    let u := (f.storeAll t messages).2
    let recordsOf (loc : Location) :=
      (f.records messages).filter fun record => f.destination? u record = some loc
    (∀ record ∈ f.records messages, ∃! loc, record ∈ recordsOf loc) ∧
    (∀ loc, recordsOf loc ≠ [] →
      u.get? loc = some (.file (t.contentAt loc ++ (transcript (recordsOf loc)).toUTF8))) ∧
    (∀ loc, recordsOf loc = [] → ∀ content,
      u.get? loc = some (.file content) ↔ t.get? loc = some (.file content)) ∧
    ∀ (loc : Location) (before : String) (record : Document) (more : List Document),
      t.contentAt loc = before.toUTF8 → recordsOf loc = record :: more →
      ∃ text : String, u.get? loc = some (.file text.toUTF8) ∧
        Text.lines text.toList = Text.lines (before.toList.rdropWhile (· ≠ '\n')) ++
          (before.toList.rtakeWhile (· ≠ '\n') ++ record.render.toList) ::
            more.map fun r => r.render.toList := by
  intro u recordsOf
  have hu : (storeEach .append (f.requests messages) t).1 = u := by
    rw [← hm]
    exact (congrArg Prod.snd (storeAll_eq f messages t)).symm
  have htrue := all_true_of_failed_eq hs
  rw [hm] at htrue
  obtain ⟨-, hpaths, hcontent, hfiles⟩ := storeEach_of_all_true hu htrue
  simp only [requests_eq_records, linesOf_records, List.mem_map, forall_exists_index, and_imp,
    forall_apply_eq_imp_iff₂, exists_exists_and_eq_and] at hpaths hcontent hfiles
  have hmem (record : Document) (loc : Location) : record ∈ recordsOf loc ↔
      record ∈ f.records messages ∧ f.destination? u record = some loc := by
    rw [List.mem_filter, decide_eq_true_iff]
  have hget (loc : Location) (hne : recordsOf loc ≠ []) :
      u.get? loc = some (.file (t.contentAt loc ++ (transcript (recordsOf loc)).toUTF8)) := by
    obtain ⟨record, hr⟩ := List.exists_mem_of_ne_nil _ hne
    rw [← hcontent loc]
    exact HasFile.get?_eq ((hfiles loc).2 (.inr ⟨record, (hmem record loc).1 hr⟩))
  refine ⟨fun record hr => ?_, hget, fun loc hnil content => ?_, fun loc before record more hb hr => ?_⟩
  · obtain ⟨loc, hloc⟩ := hpaths record hr
    refine ⟨loc, (hmem record loc).2 ⟨hr, hloc⟩, fun l hl => ?_⟩
    exact Option.some.inj (((hmem record l).1 hl).2.symm.trans hloc)
  · refine get?_file_congr ?_ ?_ content
    · rw [hfiles, or_iff_left]
      rintro ⟨record, hr⟩
      exact List.not_mem_nil (hnil ▸ (hmem record loc).2 hr)
    · have hempty : (transcript (recordsOf loc)).toUTF8 = .empty := by
        simp [hnil, transcript]
      rw [hcontent, hempty, ByteArray.append_empty]
  · refine ⟨before ++ transcript (record :: more), ?_, ?_⟩
    · rw [hget loc (by simp [hr]), hb, hr]
      simp
    · rw [String.toList_append, lines_append_transcript]

/-- Two messages are stored whose records go to two files, one of them behind a text without a line end. -/
theorem records_partitioned_by_key :
    let rule : FilerRule := {
      name := "r"
      source := ⟨"a"⟩
      reshape := .flatten "list"
      storePath := "d"
      storeName := "\x7b\x7bk\x7d\x7d"
      mode := .append }
    let element (key : String) (value : Bool) : Json := .object [("k", .string key), ("v", .bool value)]
    let messages : List Document :=
      [[("list", .array [element "a" true, element "b" true])], [("list", .array [element "a" false])]]
    let t := (({} : FileTree).put ["d"] .dir).put ["d", "a"] (.file "x".toUTF8)
    let s := ({ rule } : Filer).storeAll t messages
    s.1.counters.failed = 0 ∧
      s.2.get? ["d", "a"] =
        some (.file "x\x7b\"k\":\"a\",\"v\":true\x7d\n\x7b\"k\":\"a\",\"v\":false\x7d\n".toUTF8) ∧
      s.2.get? ["d", "b"] = some (.file "\x7b\"k\":\"b\",\"v\":true\x7d\n".toUTF8) := by
  intro rule element messages t s
  have hs : s.1.counters.failed = 0 := by decide +kernel
  obtain ⟨-, hget, -⟩ := records_partitioned (f := { rule }) (t := t) rfl hs
  have ha := hget ["d", "a"] (by decide +kernel)
  have hb := hget ["d", "b"] (by decide +kernel)
  refine ⟨hs, ha.trans ?_, hb.trans ?_⟩
  · refine congrArg (fun content => some (FileNode.file content)) ?_
    decide +kernel
  · refine congrArg (fun content => some (FileNode.file content)) ?_
    decide +kernel

end Filer

end FeedFiler
