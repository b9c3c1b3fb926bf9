import FeedFiler.Feed
import FeedFiler.Proofs.Envelope.Forms
import FeedFiler.Proofs.Feed.Pages

/-!
# Envelopes read back

An envelope is read back from either of its forms if its further members keep away from the names of the
header, its doubles are finite and it is not nested too deep. Whatever is read is such an envelope, and so
is whatever a feed makes of a payload.
-/

namespace FeedFiler

theorem forall_mem_of_forall₂ {α β : Type} {p : β → Prop} {as : List α} {bs : List β}
    (h : List.Forall₂ (fun _ b => p b) as bs) : ∀ b ∈ bs, p b := by
  induction h with
  | nil => nofun
  | cons hb _ ih => exact List.forall_mem_cons.2 ⟨hb, ih⟩

namespace Envelope

variable {e : Envelope}

/-! ## Depth -/

theorem depth_recordsJson_le (e : Envelope) : e.recordsJson.depth ≤ 2 := by
  refine Nat.succ_le_succ (Json.itemsDepth_le_iff.2 fun item hi => ?_)
  obtain ⟨r, -, rfl⟩ := List.mem_map.1 hi
  exact r.depth_toDocument_le

/-- Only the further members can be nested too deep. -/
theorem depth_toMembers_le (h : Json.membersDepth e.extra ≤ Json.maxDepth - 1) :
    (Json.object e.toMembers).depth ≤ Json.maxDepth := by
  refine Nat.succ_le_succ (Json.membersDepth_le_iff.2 fun member hm => ?_)
  simp only [toMembers, header, List.mem_append, List.mem_cons, List.not_mem_nil, List.mem_map,
    or_false] at hm
  rcases hm with (((rfl | rfl) | ⟨_, -, rfl⟩) | rfl) | hm
  · exact Nat.zero_le _
  · exact Nat.zero_le _
  · exact Nat.zero_le _
  · exact Nat.le_trans e.depth_recordsJson_le (by decide)
  · exact Json.membersDepth_le_iff.1 h member hm

/-! ## What is read -/

theorem finite_of_recordsMember? {members : List (String × Json)} {records : List Record}
    (h : recordsMember? members = some records) : ∀ r ∈ records, r.Finite := by
  rw [recordsMember?] at h
  split at h
  · cases h
    exact List.forall_mem_nil _
  · obtain ⟨items, -, h⟩ := Option.bind_eq_some_iff.1 h
    refine forall_mem_of_forall₂ ((mapM_eq_some.1 h).imp fun item r hr => ?_)
    obtain ⟨members, -, hr⟩ := Option.bind_eq_some_iff.1 hr
    exact Record.finite_of_ofMembers? hr

theorem faithful_of_ofMembers? {members : List (String × Json)} (h : ofMembers? members = some e)
    (hd : Json.membersDepth members ≤ Json.maxDepth - 1) : e.Faithful := by
  simp only [ofMembers?, Option.bind_eq_bind, Option.bind_eq_some_iff] at h
  obtain ⟨-, -, moduleName, -, moduleId, -, stamp, -, records, hr, he⟩ := h
  cases he
  have hextra (p : String × Json → Bool) : Json.membersDepth (members.filter p) ≤ Json.maxDepth - 1 := by
    refine Json.membersDepth_le_iff.2 fun member hm => ?_
    exact Json.membersDepth_le_iff.1 hd member (List.mem_of_mem_filter hm)
  refine ⟨fun name hn hk => ?_, Document.settle_distinct _, finite_of_recordsMember? hr,
    depth_toMembers_le (Nat.le_trans (Document.membersDepth_settle_le _) (hextra _))⟩
  obtain ⟨member, hm, rfl⟩ := List.mem_map.1 (Document.mem_keys_of_settle hk)
  have := (List.mem_filter.1 hm).2
  simp only [Bool.not_eq_eq_eq_not, Bool.not_true] at this
  exact absurd hn (by simpa using this)

theorem faithful_of_parse? {text : String} (h : parse? text = some e) : e.Faithful := by
  obtain ⟨members, hm, he⟩ := Option.bind_eq_some_iff.1 h
  exact faithful_of_ofMembers? he (Json.depth_of_parseMembers? hm)

/-- No other envelope is read back from its written text. -/
theorem parse?_render_iff (hf : (Json.object e.toMembers).FloatsReadBack) :
    parse? e.render = some e ↔ e.Faithful := by
  refine ⟨faithful_of_parse?, fun h => ?_⟩
  rw [render, e.toMembers_eq]
  exact h.parse?_membersWith hf (List.nil_append e.extra)

theorem Faithful.parse?_toDocument (h : e.Faithful) (hf : (Json.object e.toMembers).FloatsReadBack) :
    parse? e.toDocument.render = some e := by
  rw [h.toDocument_eq]
  exact h.parse?_membersWith hf (List.append_nil e.extra)

end Envelope

/-! ## What a feed makes -/

theorem TagFormat.isFinite_of_convert? {format : TagFormat} {text : List Char} {v : Value}
    (h : format.convert? text = some v) : v.IsFinite := by
  cases format with
  | string => cases h; trivial
  | float =>
      obtain ⟨x, hx, rfl⟩ := Option.map_eq_some_iff.1 h
      exact (Option.filter_eq_some_iff.1 hx).2
  | int | utc | unixSeconds =>
      obtain ⟨x, -, rfl⟩ := Option.map_eq_some_iff.1 h
      trivial

theorem MarkupParser.finite_recordOf (p : MarkupParser) (leaves : List Markup.Leaf) :
    (p.recordOf leaves).Finite := by
  rw [recordOf_eq]
  refine Record.finite_empty.insertAll fun field hf => ?_
  obtain ⟨leaf, -, hf⟩ := List.mem_flatMap.1 hf
  rcases List.mem_cons.1 hf with rfl | hf
  · trivial
  · obtain ⟨mapping, -, hm⟩ := Option.bind_eq_some_iff.1 (Option.mem_toList.1 hf)
    obtain ⟨v, hv, rfl⟩ := Option.map_eq_some_iff.1 hm
    exact TagFormat.isFinite_of_convert? hv

theorem JourneyTimes.finite_parse (payload : ByteArray) : ∀ r ∈ parse payload, r.Finite := by
  rw [parse]
  split
  · next items _ =>
      intro r hr
      obtain ⟨item, -, hr⟩ := List.mem_filterMap.1 hr
      obtain ⟨doc, -, rfl⟩ := Option.map_eq_some_iff.1 hr
      exact Record.finite_ofDocument doc
  · nofun

theorem FeedParser.finite_parse {p : FeedParser} {payload : ByteArray} {records : List Record}
    (h : p.parse payload = .ok records) : ∀ r ∈ records, r.Finite := by
  cases p with
  | markup p =>
      refine forall_mem_of_forall₂ ((mapM_eq_ok.1 h).imp fun part r hr => ?_)
      cases hl : Markup.leaves part.1 part.2 with
      | error fault => simp [hl, Except.map] at hr
      | ok leaves =>
          simp only [hl, Except.map, Except.ok.injEq] at hr
          exact hr ▸ p.finite_recordOf leaves
  | journeyTimes =>
      cases h
      exact JourneyTimes.finite_parse payload

namespace Feed

theorem extra_pack (f : Feed) (now : Instant) (records : List Record) :
    (f.pack now records).extra =
      [("ts", Json.ofInt64 (Int64.ofInt now.seconds)), ("feed_id", .string f.name)] := by
  simp [pack, Envelope.withField, Document.insert]

theorem faithful_pack (f : Feed) (now : Instant) {records : List Record} (h : ∀ r ∈ records, r.Finite) :
    (f.pack now records).Faithful where
  names := by
    rw [extra_pack]
    simp [Envelope.headerNames, Document.keys]
  distinct := by
    rw [extra_pack]
    exact ⟨by simp [Document.Distinct, Document.keys], trivial, trivial, trivial⟩
  finite := h
  depth_le := by
    refine Envelope.depth_toMembers_le ?_
    rw [extra_pack]
    exact Nat.zero_le _

theorem faithful_of_ingest {f : Feed} {now : Instant} {payload : ByteArray} {e : Envelope}
    (h : f.ingest now payload = .ok e) : e.Faithful := by
  rw [ingest] at h
  cases hp : f.parser.parse payload with
  | error fault => simp [hp, Except.map] at h
  | ok records =>
      simp only [hp, Except.map, Except.ok.injEq] at h
      exact h ▸ f.faithful_pack now (FeedParser.finite_parse hp)

end Feed

namespace Envelope

/-- **Both forms read back.** An envelope is read back from its document and from its written text, further
members in the same order, if these keep away from the names of the header, its doubles are finite and it is
nested no deeper than the reader allows. Whatever is read has these properties, and so has whatever a feed
makes of a payload. That the text of a double is read as the same double is asked of each one that occurs. -/
theorem both_forms_read_back :
    (∀ e : Envelope, e.Faithful → (Json.object e.toMembers).FloatsReadBack →
      parse? e.toDocument.render = some e ∧ parse? e.render = some e) ∧
    (∀ (text : String) (e : Envelope), parse? text = some e → e.Faithful) ∧
    (∀ (feed : Feed) (now : Instant) (payload : ByteArray) (e : Envelope),
      feed.ingest now payload = .ok e → e.Faithful) := by
  refine ⟨fun e h hf => ⟨h.parse?_toDocument hf, (parse?_render_iff hf).2 h⟩, ?_, ?_⟩
  · intro text e h
    exact faithful_of_parse? h
  · intro feed now payload e h
    exact Feed.faithful_of_ingest h

/-- A record with a field of each kind. -/
def stopRecord : Record :=
  .ofList [("name", .text "a \"stop\""), ("late", .int (-3)), ("acp_lat", .float 52.2)]

/-- An envelope without a stamp and with further members, one of them nested. -/
def stopEnvelope : Envelope where
  moduleName := "feedmaker"
  moduleId := "vix"
  records := [stopRecord, .empty]
  extra := [("ts", Json.ofInt64 1580132048), ("note", .object [("", .array [Json.ofFloat 0.1, .null])])]

theorem stopEnvelope_faithful : stopEnvelope.Faithful where
  names := by decide +kernel
  distinct := by
    have hnote : (Json.array [Json.ofFloat 0.1, .null]).Distinct := by
      rw [Json.ofFloat]
      split <;> exact ⟨trivial, trivial, trivial⟩
    refine ⟨by simp [Document.Distinct, Document.keys, stopEnvelope], trivial, ⟨?_, hnote, trivial⟩, trivial⟩
    simp [Document.Distinct, Document.keys]
  finite := by
    have hstop : stopRecord.Finite := by
      refine Record.finite_empty.insertAll fun field hf => ?_
      simp only [List.mem_cons, List.not_mem_nil, or_false] at hf
      rcases hf with rfl | rfl | rfl
      · trivial
      · trivial
      · exact (by decide +kernel : (52.2 : Float).isFinite = true)
    exact List.forall_mem_cons.2 ⟨hstop, List.forall_mem_cons.2 ⟨Record.finite_empty, List.forall_mem_nil _⟩⟩
  depth_le := by decide +kernel

theorem stopEnvelope_floatsReadBack : (Json.object stopEnvelope.toMembers).FloatsReadBack := by
  have hlist : stopRecord.toList =
      [("acp_lat", .float 52.2), ("late", .int (-3)), ("name", .text "a \"stop\"")] := by decide +kernel
  have hempty : Record.empty.toList = [] := by decide +kernel
  have hlat : Json.ofFloat 52.2 = .number (.float 52.2 (by decide +kernel)) := dif_pos _
  have hnote : Json.ofFloat 0.1 = .number (.float 0.1 (by decide +kernel)) := dif_pos _
  simp only [stopEnvelope, toMembers, header, recordsJson, Record.toDocument, hlist, hempty, hlat, hnote,
    Json.ofInt64, Value.toJson, Json.FloatsReadBack, Json.MembersReadBack, Json.ItemsReadBack, List.map_cons,
    List.map_nil, List.cons_append, List.nil_append, Option.toList_none, and_true, true_and]
  decide +kernel

/-- Written members in another order, with a number beyond 64 signed bits. -/
def mixedText : String :=
  "\x7b\"b\":[],\"request_data\":[\x7b\"n\":9223372036854775808\x7d],\"a\":1e3\x7d"

/-- The journey times of one stop. -/
def stopFeed : Feed := ⟨"vix", ⟨"feed/vix"⟩, "feedmaker", "vix", .journeyTimes⟩

theorem both_forms_read_back_stop :
    (parse? stopEnvelope.toDocument.render = some stopEnvelope ∧
      parse? stopEnvelope.render = some stopEnvelope) ∧
    (∃ e, parse? mixedText = some e ∧ e.Faithful) ∧
    (∃ e, stopFeed.ingest Instant.epoch "[\x7b\"t\":18446744073709551615\x7d]".toUTF8 = .ok e ∧
      e.Faithful) := by
  obtain ⟨hforms, hread, hmade⟩ := both_forms_read_back
  refine ⟨hforms _ stopEnvelope_faithful stopEnvelope_floatsReadBack, ?_, ?_⟩
  · obtain ⟨e, he⟩ := Option.isSome_iff_exists.1 (by decide +kernel : (parse? mixedText).isSome = true)
    exact ⟨e, he, hread _ e he⟩
  · exact ⟨_, rfl, hmade stopFeed Instant.epoch _ _ rfl⟩

end Envelope

end FeedFiler
