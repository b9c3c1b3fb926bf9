import Mathlib.Data.List.Forall2
import FeedFiler.Envelope
import FeedFiler.Proofs.Record

/-!
# The two forms of an envelope

Both forms write the header first. They differ in where the records stand: the document has them behind
the further members, the written form before them. Either is read back as the envelope.
-/

namespace FeedFiler

theorem mapM_eq_some {α β : Type} {f : α → Option β} {as : List α} {bs : List β} :
    as.mapM f = some bs ↔ List.Forall₂ (fun a b => f a = some b) as bs := by
  induction as generalizing bs with
  | nil => cases bs <;> simp
  | cons a as ih =>
      rw [List.mapM_cons, List.forall₂_cons_left_iff]
      simp only [Option.bind_eq_bind, Option.bind_eq_some_iff, Option.pure_def, Option.some.injEq, ih]
      constructor
      · rintro ⟨b, hb, bs', has, rfl⟩
        exact ⟨b, bs', hb, has, rfl⟩
      · rintro ⟨b, bs', hb, has, rfl⟩
        exact ⟨b, hb, bs', has, rfl⟩

/-- In a document no key is found twice. -/
theorem Document.Distinct.length_filter_le {doc : Document} (h : doc.Distinct) (key : String) :
    (doc.filter (·.1 == key)).length ≤ 1 := by
  have hcount : (doc.filter (·.1 == key)).length = doc.keys.count key := by
    rw [Document.keys, List.count_eq_countP, List.countP_map, List.countP_eq_length_filter]
    rfl
  rw [hcount]
  exact List.nodup_iff_count.1 h key

theorem Document.contains_eq (doc : Document) (name : String) :
    Document.contains doc name = decide (name ∈ doc.keys) := by
  rw [Bool.eq_iff_iff, decide_eq_true_iff, Document.contains, List.any_eq_true, Document.keys, List.mem_map]
  simp only [beq_iff_eq]

namespace Envelope

/-- An envelope that its forms tell from every other: its further members have no name of the header's, no
object in them has a key twice, every double in its records has a number, and it is nested no deeper than
the reader allows. -/
structure Faithful (e : Envelope) : Prop where
  names : ∀ name ∈ headerNames, name ∉ e.extra.keys
  distinct : (Json.object e.extra).Distinct
  finite : ∀ r ∈ e.records, r.Finite
  depth_le : (Json.object e.toMembers).depth ≤ Json.maxDepth

variable {e : Envelope} {before after : List (String × Json)}

/-- The members with the records between two parts of the further members. -/
def membersWith (e : Envelope) (before after : List (String × Json)) : List (String × Json) :=
  e.header ++ before ++ ("request_data", e.recordsJson) :: after

theorem perm_membersWith (e : Envelope) (he : before ++ after = e.extra) :
    (e.membersWith before after).Perm e.toMembers := by
  rw [membersWith, toMembers, ← he, List.append_assoc, List.append_assoc, List.singleton_append]
  exact List.perm_middle.append_left e.header

theorem toMembers_eq (e : Envelope) : e.toMembers = e.membersWith [] e.extra := by
  simp [toMembers, membersWith]

/-! ## Members -/

theorem mem_headerNames_of_header {member : String × Json} (h : member ∈ e.header) :
    member.1 ∈ headerNames ∧ member.1 ≠ "request_data" := by
  have hkeys : ∀ name ∈ ["module_name", "module_id", "acp_ts"],
      name ∈ headerNames ∧ name ≠ "request_data" := by decide
  refine hkeys _ ?_
  simp only [header, List.mem_append, List.mem_cons, List.not_mem_nil, List.mem_map, or_false] at h
  rcases h with (rfl | rfl) | ⟨stamp, -, rfl⟩ <;> simp

theorem header_distinct (e : Envelope) : Document.Distinct e.header := by
  cases h : e.stamp <;> simp [Document.Distinct, Document.keys, header, h]

theorem Faithful.notMem_extra (h : e.Faithful) {member : String × Json} (hm : member ∈ e.extra) :
    member.1 ∉ headerNames :=
  fun hn => h.names _ hn (List.mem_map_of_mem hm)

theorem Faithful.header_extra_distinct (h : e.Faithful) : Document.Distinct (e.header ++ e.extra) := by
  rw [Document.Distinct, Document.keys, List.map_append]
  refine List.nodup_append.2 ⟨e.header_distinct, h.distinct.1, fun name hname name' hname' heq => ?_⟩
  obtain ⟨member, hm, rfl⟩ := List.mem_map.1 hname
  obtain ⟨member', hm', rfl⟩ := List.mem_map.1 hname'
  exact h.notMem_extra hm' (heq ▸ (mem_headerNames_of_header hm).1)

theorem Faithful.records_notMem (h : e.Faithful) : "request_data" ∉ Document.keys (e.header ++ e.extra) := by
  intro hk
  obtain ⟨member, hm, heq⟩ := List.mem_map.1 hk
  rcases List.mem_append.1 hm with hm | hm
  · exact (mem_headerNames_of_header hm).2 heq
  · exact h.notMem_extra hm (heq ▸ by decide)

theorem Faithful.membersWith_distinct (h : e.Faithful) (he : before ++ after = e.extra) :
    Document.Distinct (e.membersWith before after) := by
  have hperm : (e.membersWith before after).Perm
      (("request_data", e.recordsJson) :: (e.header ++ e.extra)) := by
    rw [membersWith, ← he, ← List.append_assoc]
    exact List.perm_middle
  exact (hperm.map Prod.fst).nodup_iff.2 (List.nodup_cons.2 ⟨h.records_notMem, h.header_extra_distinct⟩)

/-- Further members are put behind a document one by one, but for those whose name it has already and those
with the name of the records. -/
theorem foldl_further {doc extra : Document} (h : extra.Distinct) :
    extra.foldl (fun doc (name, value) =>
      if !Document.contains doc name && name != "request_data" then Document.insert doc name value
      else doc) doc =
      doc ++ extra.filter fun member => member.1 ∉ doc.keys ∧ member.1 ≠ "request_data" := by
  induction extra generalizing doc with
  | nil => exact (List.append_nil doc).symm
  | cons member extra ih =>
      obtain ⟨name, value⟩ := member
      obtain ⟨hname, hrest⟩ := List.nodup_cons.1 h
      rw [List.foldl_cons, ih hrest]
      simp only [Document.contains_eq]
      by_cases hnew : name ∉ doc.keys ∧ name ≠ "request_data"
      · -- No later member has this name, so it does not matter to them that the document has it now.
        have hlater : (extra.filter fun member => member.1 ∉ Document.keys (doc ++ [(name, value)]) ∧
            member.1 ≠ "request_data") =
            extra.filter fun member => member.1 ∉ doc.keys ∧ member.1 ≠ "request_data" := by
          refine List.filter_congr fun member hm => ?_
          have hne : member.1 ≠ name := ne_of_mem_of_not_mem (List.mem_map_of_mem hm) hname
          rw [Document.keys, List.map_append, List.map_singleton, decide_eq_decide, List.mem_append,
            List.mem_singleton, or_iff_left hne]
          rfl
        rw [if_pos (by simpa using hnew), Document.insert_of_notMem hnew.1, hlater,
          List.filter_cons_of_pos (by simpa using hnew), List.append_assoc, List.singleton_append]
      · rw [if_neg (by simpa using hnew), List.filter_cons_of_neg (by simpa using hnew)]

/-- The further members that the document shows. -/
def shown (e : Envelope) : Document :=
  e.extra.filter fun member => member.1 ∉ Document.keys e.header ∧ member.1 ≠ "request_data"

/-- The document has further members between the header and the records. -/
theorem toDocument_eq (h : e.extra.Distinct) : e.toDocument = e.membersWith e.shown [] := by
  have hrecords : "request_data" ∉ Document.keys (e.header ++ e.shown) := by
    intro hk
    obtain ⟨member, hm, heq⟩ := List.mem_map.1 hk
    rcases List.mem_append.1 hm with hm | hm
    · exact (mem_headerNames_of_header hm).2 heq
    · simp [shown, heq] at hm
  rw [toDocument, foldl_further h]
  exact Document.insert_of_notMem hrecords e.recordsJson

theorem Faithful.shown_eq (h : e.Faithful) : e.shown = e.extra := by
  refine List.filter_eq_self.2 fun member hm => decide_eq_true ⟨fun hk => ?_, ?_⟩
  · obtain ⟨member', hm', heq⟩ := List.mem_map.1 hk
    exact h.notMem_extra hm (heq ▸ (mem_headerNames_of_header hm').1)
  · intro heq
    exact h.notMem_extra hm (heq ▸ by decide)

theorem Faithful.toDocument_eq (h : e.Faithful) : e.toDocument = e.membersWith e.extra [] := by
  rw [Envelope.toDocument_eq h.distinct.1, h.shown_eq]

/-! ## Reading -/

/-- A name of the header's is looked up in the header, or gives the records. -/
theorem Faithful.lookup_membersWith (h : e.Faithful) (he : before ++ after = e.extra) {name : String}
    (hn : name ∈ headerNames) :
    (e.membersWith before after).lookup name =
      (e.header ++ [("request_data", e.recordsJson)]).lookup name := by
  have hnone (part : List (String × Json)) (hp : ∀ member ∈ part, member ∈ e.extra) :
      part.lookup name = none := by
    rw [List.lookup_eq_none_iff]
    intro member hm
    exact bne_iff_ne.2 fun heq => h.notMem_extra (hp member hm) (heq ▸ hn)
  have hbefore := hnone before fun member hm => he ▸ List.mem_append_left after hm
  have hafter := hnone after fun member hm => he ▸ List.mem_append_right before hm
  rw [membersWith, List.append_assoc, List.lookup_append, List.lookup_append, hbefore, Option.none_or,
    List.lookup_append, ← List.singleton_append, List.lookup_append, hafter, Option.or_none]

theorem Faithful.filter_membersWith (h : e.Faithful) (he : before ++ after = e.extra) :
    (e.membersWith before after).filter (fun (name, _) => !headerNames.contains name) = e.extra := by
  have hheader : e.header.filter (fun (name, _) => !headerNames.contains name) = [] := by
    rw [List.filter_eq_nil_iff]
    intro member hm
    simpa using (mem_headerNames_of_header hm).1
  have hextra : e.extra.filter (fun (name, _) => !headerNames.contains name) = e.extra := by
    rw [List.filter_eq_self]
    intro member hm
    simpa using h.notMem_extra hm
  rw [membersWith, List.filter_append, List.filter_append, hheader,
    List.filter_cons_of_neg (by simp [headerNames]), List.nil_append, ← List.filter_append, he, hextra]

theorem recordsMember?_eq {members : List (String × Json)} (hf : ∀ r ∈ e.records, r.Finite)
    (h : members.lookup "request_data" = some e.recordsJson) : recordsMember? members = some e.records := by
  rw [recordsMember?, h, recordsJson]
  simp only [Json.array?, Option.bind_eq_bind, Option.bind_some]
  rw [mapM_eq_some, List.forall₂_map_left_iff, List.forall₂_same]
  intro r hr
  exact Record.ofMembers?_toDocument (hf r hr)

/-- The records may stand anywhere among the further members. -/
theorem Faithful.ofMembers?_membersWith (h : e.Faithful) (he : before ++ after = e.extra) :
    ofMembers? (e.membersWith before after) = some e := by
  have hguard : headerNames.all fun name => ((e.membersWith before after).filter (·.1 == name)).length ≤ 1 :=
    List.all_eq_true.2 fun name _ => decide_eq_true ((h.membersWith_distinct he).length_filter_le name)
  have hname : stringMember? (e.membersWith before after) "module_name" = some e.moduleName := by
    rw [stringMember?, h.lookup_membersWith he (by decide)]
    rfl
  have hid : stringMember? (e.membersWith before after) "module_id" = some e.moduleId := by
    rw [stringMember?, h.lookup_membersWith he (by decide)]
    rfl
  have hstamp : stampMember? (e.membersWith before after) = some e.stamp := by
    rw [stampMember?, h.lookup_membersWith he (by decide), header]
    cases e.stamp <;> rfl
  have hrecords : recordsMember? (e.membersWith before after) = some e.records := by
    refine recordsMember?_eq h.finite ?_
    rw [h.lookup_membersWith he (by decide), header]
    cases e.stamp <;> rfl
  rw [ofMembers?, hguard, hname, hid, hstamp, hrecords, h.filter_membersWith he, Document.settle,
    Json.settleMembers_of_distinct _ h.distinct.2, Document.ofMembers_of_distinct h.distinct.1]
  rfl

/-- The text of an object with these members is read as the envelope. -/
theorem Faithful.parse?_membersWith (h : e.Faithful) (hf : (Json.object e.toMembers).FloatsReadBack)
    (he : before ++ after = e.extra) :
    parse? (Json.object (e.membersWith before after)).render = some e := by
  have hmem (member : String × Json) : member ∈ e.membersWith before after ↔ member ∈ e.toMembers :=
    (e.perm_membersWith he).mem_iff
  have hdepth : (Json.object (e.membersWith before after)).depth ≤ Json.maxDepth := by
    refine Nat.succ_le_of_lt (Nat.lt_of_le_of_lt (Json.membersDepth_le_iff.2 fun member hm => ?_) h.depth_le)
    exact Json.membersDepth_le_iff.1 (Nat.le_refl _) member ((hmem member).1 hm)
  have hfloats : (Json.object (e.membersWith before after)).FloatsReadBack :=
    Json.membersReadBack_iff.2 fun member hm => Json.membersReadBack_iff.1 hf member ((hmem member).1 hm)
  rw [parse?, Json.parseMembers?_render hdepth hfloats, Option.bind_some, h.ofMembers?_membersWith he]

end Envelope

end FeedFiler
