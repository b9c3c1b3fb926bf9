import Mathlib.Data.List.Basic
import Mathlib.Data.List.Induction
import Mathlib.Logic.Relation
import FeedFiler.Proofs.Text.Lines
import FeedFiler.Proofs.Text.Trim
import FeedFiler.Run.Replay

/-!
# Replaying line by line

A replay stores the messages of the lines, one after the other. Lines without a message can be put in and
taken out, and a text that ends with a line feed can be replayed apart from what follows it.
-/

namespace FeedFiler

/-! ## Endings of lines -/

namespace Text

variable {line front rest s : List Char}

theorem trim_append {back : List Char} (hb : IsBlanks back) (s : List Char) : trim (s ++ back) = trim s := by
  have hf : IsBlanks [] := nofun
  exact trim_append_blanks hf hb

/-- The ending of a line is among the blanks around it. -/
theorem trim_dropEnding (line : List Char) : trim (dropEnding line) = trim line := by
  have hr := List.reverse_reverse line
  have hfeed : IsBlanks ['\n'] := List.forall_mem_singleton.2 rfl
  have hreturn : IsBlanks ['\r', '\n'] := List.forall_mem_cons.2 ⟨rfl, hfeed⟩
  rw [dropEnding]
  split
  · next rest he =>
      rw [← hr, he, List.reverse_cons, List.reverse_cons, List.append_assoc]
      exact (trim_append hreturn _).symm
  · next rest he =>
      rw [← hr, he, List.reverse_cons]
      exact (trim_append hfeed _).symm
  · rfl

theorem cutLines_of_notMem (h : '\n' ∉ line) (hne : line ≠ []) : cutLines line = [line] := by
  induction line with
  | nil => exact absurd rfl hne
  | cons c line ih =>
      rw [List.mem_cons, not_or] at h
      rw [cutLines, if_neg (Ne.symm h.1)]
      cases line with
      | nil => rfl
      | cons d line => rw [ih h.2 (List.cons_ne_nil d line)]

/-- A text is made of lines with their endings and of a line without one, which may be empty. -/
theorem exists_last_line (s : List Char) :
    ∃ front line, s = front ++ line ∧ (front ≠ [] → front.getLast? = some '\n') ∧ '\n' ∉ line := by
  induction s using List.reverseRecOn with
  | nil => exact ⟨[], [], rfl, nofun, List.not_mem_nil⟩
  | append_singleton s c ih =>
      by_cases hc : c = '\n'
      · subst hc
        exact ⟨s ++ ['\n'], [], (List.append_nil _).symm, fun _ => List.getLast?_concat, List.not_mem_nil⟩
      · obtain ⟨front, line, rfl, hf, hl⟩ := ih
        refine ⟨front, line ++ [c], List.append_assoc _ _ _, hf, ?_⟩
        rw [List.mem_append, not_or, List.mem_singleton]
        exact ⟨hl, Ne.symm hc⟩

end Text

namespace Replay

variable {line front rest s : List Char} {f : Filer} {t : FileTree}

/-! ## The messages of a text -/

/-- The line is blank, or no JSON object stands on it. -/
def IsPassedOver (line : List Char) : Prop :=
  Text.trim line = [] ∨ Document.parse? (String.ofList (Text.trim line)) = none

theorem messageOf?_of_isPassedOver (h : IsPassedOver line) : messageOf? line = none := by
  rcases h with h | h
  · rw [messageOf?, h]
    decide +kernel
  · exact h

def messagesIn (s : List Char) : List Document := (Text.lines s).filterMap messageOf?

theorem messagesIn_eq (s : List Char) : messagesIn s = (Text.cutLines s).filterMap messageOf? := by
  rw [messagesIn, Text.lines, List.filterMap_map]
  refine List.filterMap_congr fun line _ => ?_
  rw [Function.comp_apply, messageOf?, messageOf?, Text.trim_dropEnding]

theorem messagesIn_of_notMem (h : '\n' ∉ line) : messagesIn line = (messageOf? line).toList := by
  rw [messagesIn_eq]
  by_cases hne : line = []
  · subst hne
    have hblank : messageOf? [] = none := messageOf?_of_isPassedOver (.inl rfl)
    rw [hblank]
    rfl
  · rw [Text.cutLines_of_notMem h hne]
    cases hm : messageOf? line <;> simp [hm]

/-- Whether a line has its line feed makes no difference to its message. -/
theorem messagesIn_append (s rest : List Char) :
    messagesIn (s ++ '\n' :: rest) = messagesIn s ++ messagesIn rest := by
  obtain ⟨front, line, rfl, hf, hl⟩ := Text.exists_last_line s
  have hline : messageOf? (line ++ ['\n']) = messageOf? line := by
    rw [messageOf?, messageOf?, Text.trim_append (List.forall_mem_singleton.2 rfl)]
  have happend (more : List Char) : messagesIn (front ++ more) = messagesIn front ++ messagesIn more := by
    rw [messagesIn, Text.lines_append_of_ended hf, List.filterMap_append]
    rfl
  rw [List.append_assoc, happend, happend, messagesIn_of_notMem hl, List.append_assoc]
  congr 1
  rw [messagesIn_eq, messagesIn_eq, Text.cutLines_append hl, List.filterMap_cons, hline]
  cases messageOf? line <;> rfl

theorem messagesIn_passedOver (hn : '\n' ∉ line) (h : IsPassedOver line) : messagesIn line = [] := by
  rw [messagesIn_of_notMem hn, messageOf?_of_isPassedOver h]
  rfl

theorem messagesIn_append_of_ended (h : front.getLast? = some '\n') (rest : List Char) :
    messagesIn (front ++ rest) = messagesIn front ++ messagesIn rest := by
  obtain ⟨s, rfl⟩ := List.getLast?_eq_some_iff.1 h
  rw [List.append_assoc, List.singleton_append, messagesIn_append, messagesIn_append]
  exact congrArg (· ++ _) (List.append_nil _).symm

/-! ## Lines put in -/

/-- The second text is the first one with one more line, which is passed over. -/
inductive AddsLine : List Char → List Char → Prop where
  /-- The line comes first. -/
  | first {line rest : List Char} (noFeed : '\n' ∉ line) (passed : IsPassedOver line) :
      AddsLine rest (line ++ '\n' :: rest)
  | between {front line rest : List Char} (noFeed : '\n' ∉ line) (passed : IsPassedOver line) :
      AddsLine (front ++ '\n' :: rest) (front ++ '\n' :: (line ++ '\n' :: rest))
  /-- The line comes last and has no line feed. -/
  | last {front line : List Char} (noFeed : '\n' ∉ line) (passed : IsPassedOver line) :
      AddsLine (front ++ ['\n']) (front ++ '\n' :: line)
  /-- The line comes behind a last line that had no line feed. -/
  | behind {front line : List Char} (noFeed : '\n' ∉ line) (passed : IsPassedOver line) :
      AddsLine front (front ++ '\n' :: line)

theorem AddsLine.messagesIn_eq (h : AddsLine s rest) : messagesIn s = messagesIn rest := by
  cases h with
  | first noFeed passed => rw [messagesIn_append, messagesIn_passedOver noFeed passed, List.nil_append]
  | between noFeed passed =>
      rw [messagesIn_append, messagesIn_append, messagesIn_append, messagesIn_passedOver noFeed passed,
        List.nil_append]
  | last noFeed passed =>
      rw [messagesIn_append, messagesIn_append, messagesIn_passedOver noFeed passed]
      rfl
  | behind noFeed passed => rw [messagesIn_append, messagesIn_passedOver noFeed passed, List.append_nil]

theorem messagesIn_eq_of_eqvGen (h : Relation.EqvGen AddsLine s rest) : messagesIn s = messagesIn rest := by
  induction h with
  | rel s rest hadds => exact hadds.messagesIn_eq
  | refl s => rfl
  | symm s rest _ ih => exact ih.symm
  | trans s mid rest _ _ ih ih' => exact ih.trans ih'

/-- The texts differ by lines that are passed over, some put in and some taken out. -/
def SameButPassedOver (content content' : String) : Prop :=
  Relation.EqvGen AddsLine content.toList content'.toList

/-! ## Replays -/

theorem storeMessages_append (messages more : List Document) (f : Filer) (t : FileTree) :
    storeMessages (messages ++ more) f t =
      ((storeMessages messages f t).1 +
          (storeMessages more (storeMessages messages f t).2.1 (storeMessages messages f t).2.2).1,
        (storeMessages more (storeMessages messages f t).2.1 (storeMessages messages f t).2.2).2) := by
  induction messages generalizing f t with
  | nil => simp [storeMessages]
  | cons message messages ih => simp [storeMessages, ih, Nat.add_assoc]

/-- **A replay sees nothing but the messages of the lines.** Lines without a JSON object can be put in and
taken out anywhere; what follows a line feed is replayed after what stands before it; and of a file that is
no UTF-8 nothing is stored. -/
theorem replay_line_by_line (f : Filer) (t : FileTree) :
    (∀ content content', SameButPassedOver content content' → text f t content = text f t content') ∧
    (∀ a b : String, a.toList.getLast? = some '\n' →
      text f t (a ++ b) =
        ((text f t a).1 + (text (text f t a).2.1 (text f t a).2.2 b).1,
          (text (text f t a).2.1 (text f t a).2.2 b).2)) ∧
    ∀ path bytes, t.read path = .ok bytes →
      file f t path =
        match String.fromUTF8? bytes with
        | some content => (.ok (text f t content).1, (text f t content).2)
        | none => (.error (.unreadable path FileError.notText.message), f, t) := by
  refine ⟨fun content content' h => ?_, fun a b h => ?_, fun path bytes hr => ?_⟩
  · have hmessages : messagesOf content = messagesOf content' := messagesIn_eq_of_eqvGen h
    rw [text, text, hmessages]
  · have hmessages : messagesOf (a ++ b) = messagesOf a ++ messagesOf b := by
      have happend := messagesIn_append_of_ended h b.toList
      rwa [← String.toList_append] at happend
    rw [text, hmessages, storeMessages_append]
    rfl
  · simp only [file, FileTree.readText, hr, bind, Except.bind]
    cases String.fromUTF8? bytes with
    | some content => rfl
    | none => rfl

/-- A remark between two messages is passed over, both messages are stored, and the second one as well if it is
replayed on its own. -/
theorem replay_line_by_line_remark :
    let f : Filer := { rule := { name := "r", source := ⟨"a"⟩, storePath := "d", storeName := "n" } }
    let first := "\x7b\x7d\n"
    let second := "\x7b\"k\":1\x7d"
    SameButPassedOver (first ++ second) (first ++ "a remark\r\n" ++ second) ∧
      text f {} (first ++ second) = text f {} (first ++ "a remark\r\n" ++ second) ∧
      first.toList.getLast? = some '\n' ∧ (text f {} (first ++ "a remark\r\n" ++ second)).1 = 2 ∧
      (text (text f {} first).2.1 (text f {} first).2.2 second).1 = 1 := by
  intro f first second
  have hsame : SameButPassedOver (first ++ second) (first ++ "a remark\r\n" ++ second) := by
    have hcontent : (first ++ second).toList = ['\x7b', '\x7d'] ++ '\n' :: second.toList := by decide +kernel
    have hremark : (first ++ "a remark\r\n" ++ second).toList =
        ['\x7b', '\x7d'] ++ '\n' :: ("a remark\r".toList ++ '\n' :: second.toList) := by decide +kernel
    rw [SameButPassedOver, hcontent, hremark]
    exact .rel _ _ (.between (by decide +kernel) (.inr (by decide +kernel)))
  have hended : first.toList.getLast? = some '\n' := by decide +kernel
  obtain ⟨hlines, hparts, -⟩ := replay_line_by_line f {}
  have hequal := hlines _ _ hsame
  have hcount : (text f {} (first ++ second)).1 = 2 := by decide +kernel
  refine ⟨hsame, hequal, hended, by rw [← hequal]; exact hcount, ?_⟩
  have hsum := congrArg Prod.fst (hparts first second hended)
  have hfirst : (text f {} first).1 = 1 := by decide +kernel
  rw [hcount, hfirst] at hsum
  simp only at hsum
  omega

end Replay

end FeedFiler
