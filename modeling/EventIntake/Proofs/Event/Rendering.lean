import EventIntake.Proofs.Event.Envelope
import EventIntake.Proofs.Json.Rendering

/-! The texts that an envelope may have. All of them are decoded to it. -/
namespace EventIntake.Event
open Json Grammar

namespace Wire

/-- A text that may be left out. -/
def optionalText (name : String) (s : Option String) : List (String × Shape) :=
  s.toList.map fun s => (name, TextOf s)

def EventId.Rendered (digest : Option String) (eventSeq : Int64) : Shape :=
  Grammar.Rendered ["txDigest", "eventSeq"]
    (optionalText "txDigest" digest ++ [("eventSeq", (· = (toString eventSeq.toInt).toList))])

def Push.Rendered (timestamp : UInt64) (digest : Option String) (id : Shape) (entries : List (String × String)) :
    Shape :=
  Grammar.Rendered ["timestamp", "txDigest", "id", "event"]
    (("timestamp", (· = (toString timestamp.toNat).toList)) ::
      (optionalText "txDigest" digest ++ [("id", id), ("event", Object (verbatim (Codec.spellings entries)))]))

theorem EventId.rendered_write (id : EventId) :
    EventId.Rendered (some id.txDigest) id.eventSeq (EventId.codec.write id) := by
  refine (object_writeMembers ?_).rendered _
  exact .cons ⟨rfl, textOf_writeText _⟩ (.cons ⟨rfl, rfl⟩ .nil)

/-- The text that is written is one of those of the envelope. -/
theorem Push.rendered_encode (p : Push) :
    Padded (Push.Rendered p.timestamp (some p.txDigest) (EventId.Rendered (some p.id.txDigest) p.id.eventSeq) p.event)
      (Push.codec.encode p).toList := by
  have hevent := object_verbatim (Codec.spellings p.event)
  rw [Codec.encode, String.toList_ofList]
  refine padded_of ((object_writeMembers ?_).rendered _)
  exact .cons ⟨rfl, rfl⟩ (.cons ⟨rfl, textOf_writeText _⟩ (.cons ⟨rfl, p.id.rendered_write⟩ (.cons ⟨rfl, hevent⟩ .nil)))

theorem EventId.reads_rendered (digest : Option String) (eventSeq : Int64) (depth : Nat) :
    EventId.codec.Reads (depth + 1) (EventId.Rendered digest eventSeq) ⟨digest.getD "", eventSeq⟩ := by
  have hseq := Values.Spelled.member (f := int64 "eventSeq") (Codec.int64_reads eventSeq depth) .nil
  cases digest with
  | none => exact Codec.record_reads_rendered (by decide) (.absent rfl hseq)
  | some s => exact Codec.record_reads_rendered (by decide) (.member (Codec.text_reads s depth) hseq)

theorem Push.reads_rendered (timestamp : UInt64) (digest : Option String) {id : Shape} {eventId : EventId}
    {depth : Nat} (hid : EventId.codec.Reads (depth + 1) id eventId) {entries : List (String × String)}
    (hentries : ∀ e ∈ entries, Valid e.2.toList) :
    Push.codec.Reads (depth + 2) (Push.Rendered timestamp digest id entries)
      ⟨timestamp, digest.getD "", eventId, Codec.byKey entries⟩ := by
  have hevent := Values.Spelled.member (f := .required "event" .rawMembers) (Codec.rawMembers_reads hentries depth) .nil
  have hinner := Values.Spelled.member (f := .required "id" EventId.codec) hid hevent
  have htime := Codec.uint64_reads timestamp (depth + 1)
  cases digest with
  | none => exact Codec.record_reads_rendered (by decide) (.member htime (.absent rfl hinner))
  | some s =>
    exact Codec.record_reads_rendered (by decide) (.member htime (.member (Codec.text_reads s (depth + 1)) hinner))

end Wire

theorem Envelope.decode_eq {timestamp : UInt64} {eventSeq : Int64} {outer inner : Option String}
    {entries : List (String × String)} (hne : entries ≠ []) (hentries : ∀ e ∈ entries, Valid e.2.toList) {s : String}
    (h : Padded (Wire.Push.Rendered timestamp outer (Wire.EventId.Rendered inner eventSeq) entries) s.toList) :
    Envelope.decode s = .ok ⟨⟨timestamp, if inner.getD "" = "" then outer.getD "" else inner.getD "", eventSeq⟩,
      Codec.byKey entries⟩ := by
  have hid := Wire.EventId.reads_rendered inner eventSeq 125
  have hpush := Codec.decode_reads (Wire.Push.reads_rendered timestamp outer hid hentries) h
  have hkept : (Codec.byKey entries).isEmpty = false :=
    Bool.eq_false_iff.mpr fun he => Codec.byKey_ne_nil hne (List.isEmpty_iff.mp he)
  simp [decode, hpush, hkept]

/-- An envelope is decoded from each of its texts, whatever the order of keys, the blanks, the spelling of texts and
the further keys. Each tag has the text that it had last, and the order of entries with different tags does not
matter. -/
theorem Envelope.decode_rendered {timestamp : UInt64} {eventSeq : Int64} {outer inner : Option String}
    {entries : List (String × String)} (hne : entries ≠ []) (hentries : ∀ e ∈ entries, Valid e.2.toList) {s : String}
    (h : Padded (Wire.Push.Rendered timestamp outer (Wire.EventId.Rendered inner eventSeq) entries) s.toList) :
    (∃ payloads,
      Envelope.decode s =
        .ok ⟨⟨timestamp, if inner.getD "" = "" then outer.getD "" else inner.getD "", eventSeq⟩, payloads⟩ ∧
      payloads.Pairwise (fun a b => Text.bytes a.1 < Text.bytes b.1) ∧
      ∀ tag raw, (tag, raw) ∈ payloads ↔
        ∃ before after, entries = before ++ (tag, raw) :: after ∧ tag ∉ after.map Prod.fst) ∧
    ∀ {entries' : List (String × String)} {s' : String}, entries.Perm entries' → (entries.map Prod.fst).Nodup →
      Padded (Wire.Push.Rendered timestamp outer (Wire.EventId.Rendered inner eventSeq) entries') s'.toList →
      Envelope.decode s' = Envelope.decode s := by
  refine ⟨⟨Codec.byKey entries, decode_eq hne hentries h, ?_, fun tag raw => Codec.mem_byKey_iff⟩, ?_⟩
  · exact (Codec.ascending_byKey entries).imp Text.bytes_lt_iff.mpr
  · intro entries' s' hp hkeys h'
    have hne' : entries' ≠ [] := fun he => hne (he ▸ hp).eq_nil
    have hentries' : ∀ e ∈ entries', Valid e.2.toList := fun e he => hentries e (hp.mem_iff.mpr he)
    rw [decode_eq hne hentries h, decode_eq hne' hentries' h', Codec.byKey_perm hp hkeys]

/-- Two entries, written either way. -/
theorem Envelope.decode_two_entries :
    let raw (entries : List (String × String)) := Wire.Push.codec.encode ⟨7, "t", ⟨"", 0⟩, entries⟩
    (∃ payloads, Envelope.decode (raw [("b", "2"), ("a", "1")]) = .ok ⟨⟨7, "t", 0⟩, payloads⟩ ∧
      payloads.Pairwise (fun a b => Text.bytes a.1 < Text.bytes b.1)) ∧
    Envelope.decode (raw [("a", "1"), ("b", "2")]) = Envelope.decode (raw [("b", "2"), ("a", "1")]) := by
  intro raw
  have hentries : ∀ e ∈ [("b", "2"), ("a", "1")], Valid e.2.toList := by
    intro e he
    simp only [List.mem_cons, List.not_mem_nil, or_false] at he
    rcases he with rfl | rfl
    · exact .number (numeral_toString 2)
    · exact .number (numeral_toString 1)
  obtain ⟨⟨payloads, hdecode, hsorted, _⟩, hperm⟩ :=
    Envelope.decode_rendered (by simp) hentries (Wire.Push.rendered_encode ⟨7, "t", ⟨"", 0⟩, _⟩)
  refine ⟨⟨payloads, hdecode, hsorted⟩, ?_⟩
  exact hperm (.swap ..) (by decide) (Wire.Push.rendered_encode ⟨7, "t", ⟨"", 0⟩, [("a", "1"), ("b", "2")]⟩)

end EventIntake.Event
