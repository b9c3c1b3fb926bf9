import FeedFiler.Proofs.Files.Operations
import FeedFiler.Proofs.Json.RoundTrip
import FeedFiler.Proofs.Json.Transcript
import FeedFiler.Proofs.Message.Pieces
import FeedFiler.Proofs.Text.Trim
import FeedFiler.Run.Replay

/-!
# Storing and replaying a transcript

A route that appends every message as it is to one file writes a transcript: each message on a line of
its own. Replaying a transcript through any filer is storing the messages through that filer.
-/

namespace FeedFiler

/-! ## Templates without placeholders -/

/-- All of the template is text. -/
def Template.IsPlain (template : String) : Prop :=
  ∀ piece ∈ Template.pieces template.toList, ∃ text, piece = .literal text

theorem Template.expand_of_isPlain {template : String} (h : Template.IsPlain template)
    (record : Document) : Template.expand template record = template := by
  rcases Template.pieces_cases template.toList with hopen | ⟨text, inner, rest, hs, htext, hinner⟩
  · simp [Template.expand_eq, Template.pieces_of_staysOpen hopen]
  · have hp := Template.pieces_closed htext hinner rest
    obtain ⟨text, ht⟩ := h (.placeholder inner) (by rw [hs, hp]; simp)
    cases ht

/-! ## The messages of a transcript -/

theorem Replay.messageOf?_render {doc : Document} (h : doc.Legible) :
    Replay.messageOf? doc.render.toList = some doc := by
  have ht : Text.trim doc.render.toList = doc.render.toList := by
    rw [Document.render, Json.render, String.toList_ofList, Json.chars]
    refine Text.trim_eq_self (fun c hc => ?_) fun c hc => ?_
    · cases hc
      rfl
    · rw [List.cons_append, List.getLast?_cons, List.getLast?_concat] at hc
      cases hc
      rfl
  rw [Replay.messageOf?, ht, String.ofList_toList, Document.parse?_render h]

theorem Replay.messagesOf_transcript {docs : List Document} (h : ∀ doc ∈ docs, doc.Legible) :
    Replay.messagesOf (transcript docs) = docs := by
  rw [Replay.messagesOf, lines_transcript]
  induction docs with
  | nil => rfl
  | cons doc docs ih =>
      rw [List.map_cons, List.filterMap_cons_some (Replay.messageOf?_render (h doc List.mem_cons_self)),
        ih fun d hd => h d (List.mem_cons_of_mem doc hd)]

/-! ## Writing a transcript -/

/-- The rule appends every message as it is, and always to the same file. -/
structure FilerRule.Transcribes (rule : FilerRule) : Prop where
  predicate : rule.predicate = none
  reshape : rule.reshape = .whole
  mode : rule.mode = .append
  storePath : Template.IsPlain rule.storePath
  storeName : Template.IsPlain rule.storeName

/-- The path of the file that a rule without placeholders writes. -/
def FilerRule.file (rule : FilerRule) : String := joinPath rule.storePath rule.storeName

/-- The file that a rule without placeholders writes is not there yet: once its directory is made, its
path leads to no file. -/
def FilerRule.FileMissing (rule : FilerRule) (t : FileTree) : Prop :=
  ∀ content, (t.makeDirs rule.storePath).1.read rule.file ≠ .ok content

theorem FilerRule.Transcribes.requests {rule : FilerRule} (h : rule.Transcribes) (doc : Document) :
    rule.requests doc = [⟨rule.storePath, rule.storeName, doc.render⟩] := by
  simp [FilerRule.requests, FilerRule.admits, h.predicate, h.reshape, Reshape.apply,
    FilerRule.requestOf, Template.expand_of_isPlain h.storePath, Template.expand_of_isPlain h.storeName]

namespace Filer

variable {f : Filer} {t : FileTree}

/-- Storing a message through a rule that transcribes counts one write or none, and one only if the
message was added to the file. -/
theorem store_transcribes (h : f.rule.Transcribes) (t : FileTree) (doc : Document) :
    (f.store t doc).2.1.rule = f.rule ∧ ((f.store t doc).1 = 0 ∨ (f.store t doc).1 = 1 ∧
      (t.makeDirs f.rule.storePath).1.append f.rule.file (doc.render ++ "\n").toUTF8 =
        .ok (f.store t doc).2.2) := by
  simp only [store, prepare, h.requests, carryOut]
  rw [FileTree.store]
  cases hm : t.makeDirs f.rule.storePath with
  | mk t₀ made =>
      cases made with
      | error e => exact ⟨rfl, .inl rfl⟩
      | ok u =>
          simp only [h.mode, FileTree.storeFile, WriteRequest.path, FilerRule.file]
          cases ha : t₀.append (joinPath f.rule.storePath f.rule.storeName)
              (doc.render ++ "\n").toUTF8 with
          | error e => exact ⟨rfl, .inl rfl⟩
          | ok t₁ => exact ⟨rfl, .inr ⟨rfl, rfl⟩⟩

end Filer

namespace Replay

variable {f : Filer} {t : FileTree}

theorem storeMessages_cons (doc : Document) (docs : List Document) (f : Filer) (t : FileTree) :
    storeMessages (doc :: docs) f t =
      ((f.store t doc).1 + (storeMessages docs (f.store t doc).2.1 (f.store t doc).2.2).1,
        (storeMessages docs (f.store t doc).2.1 (f.store t doc).2.2).2) := rfl

theorem storeMessages_le (h : f.rule.Transcribes) (docs : List Document) :
    (storeMessages docs f t).1 ≤ docs.length := by
  induction docs generalizing f t with
  | nil => exact Nat.le_refl 0
  | cons doc docs ih =>
      obtain ⟨hf, hn⟩ := Filer.store_transcribes h t doc
      have hd := ih (f := (f.store t doc).2.1) (t := (f.store t doc).2.2) (by rw [hf]; exact h)
      rw [storeMessages_cons, List.length_cons]
      omega

/-- If all messages are written, then so are the first one and the others. -/
theorem append_of_storeMessages (h : f.rule.Transcribes) {doc : Document} {docs : List Document}
    (hn : (storeMessages (doc :: docs) f t).1 = (doc :: docs).length) :
    (f.store t doc).2.1.rule = f.rule ∧
      (storeMessages docs (f.store t doc).2.1 (f.store t doc).2.2).1 = docs.length ∧
      (t.makeDirs f.rule.storePath).1.append f.rule.file (doc.render ++ "\n").toUTF8 =
        .ok (f.store t doc).2.2 := by
  obtain ⟨hf, hn'⟩ := Filer.store_transcribes h t doc
  have hd := storeMessages_le (f := (f.store t doc).2.1) (t := (f.store t doc).2.2)
    (by rw [hf]; exact h) docs
  rw [storeMessages_cons, List.length_cons] at hn
  obtain h0 | ⟨h1, ha⟩ := hn'
  · omega
  · exact ⟨hf, by omega, ha⟩

/-- If all messages are written, the file holds what it held before and then the transcript. -/
theorem read_storeMessages {docs : List Document} (h : f.rule.Transcribes)
    (hn : (storeMessages docs f t).1 = docs.length) {old : ByteArray}
    (hr : t.read f.rule.file = .ok old) :
    (storeMessages docs f t).2.2.read f.rule.file = .ok (old ++ (transcript docs).toUTF8) := by
  induction docs generalizing f t old with
  | nil =>
      have ht : (transcript []).toUTF8 = .empty := rfl
      rw [ht, ByteArray.append_empty]
      exact hr
  | cons doc docs ih =>
      obtain ⟨hf, hd, ha⟩ := append_of_storeMessages h hn
      obtain ⟨old', hr', ho⟩ := FileTree.read_of_change ha
      have he : old' = old := by
        have hk := (FileTree.addsDirs_makeDirs t f.rule.storePath).read hr
        rcases ho with ho | ⟨-, hm⟩
        · rw [hk] at ho
          cases ho
          rfl
        · exact absurd hk (hm old)
      subst he
      have := ih (by rw [hf]; exact h) hd (by rw [hf]; exact hr')
      rw [hf] at this
      rw [storeMessages_cons, this, transcript_cons]
      simp [ByteArray.append_assoc]

/-- If all messages are written and the file was not there, it holds the transcript. -/
theorem read_storeMessages_of_missing {doc : Document} {docs : List Document}
    (h : f.rule.Transcribes) (hm : f.rule.FileMissing t)
    (hn : (storeMessages (doc :: docs) f t).1 = (doc :: docs).length) :
    (storeMessages (doc :: docs) f t).2.2.read f.rule.file = .ok (transcript (doc :: docs)).toUTF8 := by
  obtain ⟨hf, hd, ha⟩ := append_of_storeMessages h hn
  obtain ⟨old, hr, ho⟩ := FileTree.read_of_change ha
  have he : old = .empty := by
    rcases ho with ho | ⟨he, -⟩
    · exact absurd ho (hm old)
    · exact he
  subst he
  have := read_storeMessages (f := (f.store t doc).2.1) (by rw [hf]; exact h) hd (by rw [hf]; exact hr)
  rw [hf] at this
  rw [storeMessages_cons, this, transcript_cons]
  simp

/-! ## Replaying a transcript -/

theorem fromUTF8?_toUTF8 (s : String) : String.fromUTF8? s.toUTF8 = some s := by
  simp only [String.fromUTF8?, String.toUTF8_eq_toByteArray]
  rw [dif_pos s.isValidUTF8]
  rfl

theorem readText_of_read {path text : String} (h : t.read path = .ok text.toUTF8) :
    t.readText path = .ok text := by
  rw [FileTree.readText, h]
  simp only [bind, Except.bind, fromUTF8?_toUTF8]
  rfl

theorem readText_of_missing {path : String} (h : ∀ content, t.read path ≠ .ok content) (text : String) :
    t.readText path ≠ .ok text := by
  intro hr
  cases hc : t.read path with
  | error e =>
      rw [FileTree.readText, hc] at hr
      cases hr
  | ok content => exact h content hc

/-- A rule that transcribes leaves the transcript if it wrote all messages, or no file if there were
none. -/
theorem readText_storeMessages {docs : List Document} (h : f.rule.Transcribes)
    (hm : f.rule.FileMissing t) (hn : (storeMessages docs f t).1 = docs.length) (text : String) :
    (storeMessages docs f t).2.2.readText f.rule.file = .ok text ↔
      docs ≠ [] ∧ text = transcript docs := by
  cases docs with
  | nil =>
      refine iff_of_false (readText_of_missing ?_ text) fun h => h.1 rfl
      intro content hr
      exact hm content ((FileTree.addsDirs_makeDirs t f.rule.storePath).read hr)
  | cons doc docs =>
      have hr := readText_of_read (read_storeMessages_of_missing h hm hn)
      constructor
      · intro ht
        rw [hr] at ht
        cases ht
        exact ⟨List.cons_ne_nil doc docs, rfl⟩
      · rintro ⟨-, rfl⟩
        exact hr

theorem file_transcript {docs : List Document} (h : ∀ doc ∈ docs, doc.Legible) (f : Filer)
    {path : String} (hr : t.readText path = .ok (transcript docs)) :
    file f t path =
      (.ok (storeMessages docs f t).1, (storeMessages docs f t).2.1, (storeMessages docs f t).2.2) := by
  rw [file, hr]
  simp only [text, messagesOf_transcript h]

/-- **Replaying what was appended stores it again.** A filer that transcribes writes some messages to a
file that was not there. The file has a line for each message, and replaying it through any filer in any
tree is storing the messages. Replayed through another filer that transcribes into a new file, it is
copied. -/
theorem replay_of_transcribed {docs : List Document} (h : f.rule.Transcribes)
    (hl : ∀ doc ∈ docs, doc.Legible) (hm : f.rule.FileMissing t)
    (hn : (storeMessages docs f t).1 = docs.length) :
    (docs ≠ [] → ∃ text, (storeMessages docs f t).2.2.readText f.rule.file = .ok text) ∧
    ∀ text, (storeMessages docs f t).2.2.readText f.rule.file = .ok text →
      (Text.lines text.toList).length = docs.length ∧
      (∀ (g : Filer) (u : FileTree) (path : String), u.readText path = .ok text →
        file g u path =
          (.ok (storeMessages docs g u).1, (storeMessages docs g u).2.1, (storeMessages docs g u).2.2)) ∧
      (∀ (g : Filer) (u : FileTree) (path : String), u.readText path = .ok text →
        g.rule.Transcribes → g.rule.FileMissing u → (file g u path).1 = .ok docs.length →
        (file g u path).2.2.readText g.rule.file = .ok text) := by
  constructor
  · intro hne
    exact ⟨_, (readText_storeMessages h hm hn _).2 ⟨hne, rfl⟩⟩
  · intro text ht
    obtain ⟨hne, rfl⟩ := (readText_storeMessages h hm hn text).1 ht
    refine ⟨?_, fun g u path hr => file_transcript hl g hr, fun g u path hr hg hm' hn' => ?_⟩
    · rw [lines_transcript, List.length_map]
    · rw [file_transcript hl g hr] at hn' ⊢
      exact (readText_storeMessages hg hm' (Except.ok.inj hn') _).2 ⟨hne, rfl⟩

/-- The rule that appends every message of one address to one file. -/
def copyRule : FilerRule where
  name := "copy"
  source := ⟨"raw"⟩
  storePath := "data/raw"
  storeName := "all.jsonl"
  mode := .append

/-- A message with a line break, quotes, a double, a number of 64 bits and an empty key. -/
def oddMessage : Document :=
  [("text", .string "two\nlines, a \"quote\" and \\"), ("empty", .object []),
    ("all", .array [.null, .bool true, .number (.whole ⟨-9223372036854775808, by decide, by decide⟩),
      .number (.float 0.1 (by decide +kernel)), .object [("", .array [])]])]

theorem copyRule_transcribes : copyRule.Transcribes := by
  have plain (template : String)
      (h : Template.pieces template.toList = [.literal template.toList]) : Template.IsPlain template := by
    intro piece hp
    rw [h] at hp
    exact ⟨_, List.mem_singleton.1 hp⟩
  exact ⟨rfl, rfl, rfl, plain _ (by decide +kernel), plain _ (by decide +kernel)⟩

theorem oddMessage_legible : oddMessage.Legible where
  distinct := by
    simp [oddMessage, Json.Distinct, Json.MembersDistinct, Json.ItemsDistinct, Document.Distinct,
      Document.keys]
  depth_le := by decide +kernel
  floats := by
    simp only [oddMessage, Json.FloatsReadBack, Json.MembersReadBack, Json.ItemsReadBack, and_true,
      true_and]
    decide +kernel

theorem replay_of_odd_message :
    ∃ text, (storeMessages [oddMessage, []] { rule := copyRule } {}).2.2.readText copyRule.file =
      .ok text ∧ (Text.lines text.toList).length = 2 := by
  have hl : ∀ doc ∈ [oddMessage, []], doc.Legible := by
    intro doc hd
    simp only [List.mem_cons, List.not_mem_nil, or_false] at hd
    rcases hd with rfl | rfl
    · exact oddMessage_legible
    · exact ⟨⟨List.nodup_nil, trivial⟩, by decide, trivial⟩
  have hm : copyRule.FileMissing {} := by
    intro content hr
    have hf : (({} : FileTree).makeDirs copyRule.storePath).1.read copyRule.file = .error .notFound := by
      decide +kernel
    rw [hf] at hr
    cases hr
  obtain ⟨hfile, hall⟩ := replay_of_transcribed (f := { rule := copyRule }) copyRule_transcribes hl hm
    (by decide +kernel)
  obtain ⟨text, ht⟩ := hfile (List.cons_ne_nil _ _)
  exact ⟨text, ht, (hall text ht).1⟩

end Replay

end FeedFiler
