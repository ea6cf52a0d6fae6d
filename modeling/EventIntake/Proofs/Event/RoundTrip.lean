import EventIntake.Proofs.Event.Owner
import EventIntake.Proofs.Event.Payload
import EventIntake.Proofs.Json.Plain

/-! Payloads are read back from their text. -/
namespace EventIntake.Event
open Json

/-! ### Fields -/

section Fields
variable {name : String} {depth : Nat}

theorem Wire.text_rereads {s : String} : (Wire.text name).ReadsAs depth s s := ⟨rfl, Codec.text_rereads s depth⟩

theorem Wire.int64_rereads {n : Int64} : (Wire.int64 name).ReadsAs depth n n := ⟨rfl, Codec.int64_rereads n depth⟩

theorem Wire.uint64_rereads {n : UInt64} : (Wire.uint64 name).ReadsAs depth n n := ⟨rfl, Codec.uint64_rereads n depth⟩

/-- An owner is written as a text or an object, neither of which is taken for null. -/
theorem Wire.owner_rereads {o : Option Owner} : (Wire.owner name).ReadsAs (depth + 2) o o := by
  refine ⟨rfl, Codec.optional_rereads (fun a _ => a.codec_rereads depth) fun a => ?_⟩
  cases a with
  | named name => exact ⟨'"', _, rfl, by decide, by decide⟩
  | owned kind => exact ⟨'{', _, rfl, by decide, by decide⟩

theorem ChangeType.codec_rereads (c : ChangeType) (depth : Nat) : codec.Rereads depth c := by
  cases c <;> exact Codec.choice_rereads rfl depth

end Fields

/-! ### Payloads -/

section Payloads
variable {depth : Nat}
open Wire

/-- An event is read with what its fields are read as. -/
theorem MoveEvent.codec_reads {e : MoveEvent} {fields : Value}
    (h : Codec.value.Reads depth (· = e.fields.write) fields) :
    codec.Reads (depth + 1) (· = codec.write e) { e with fields } := by
  have hbcs := Codec.text_rereads e.bcs depth
  exact Codec.record_read_as (by decide) rfl
    ⟨text_rereads, text_rereads, text_rereads, text_rereads, ⟨rfl, h⟩, ⟨rfl, hbcs⟩, trivial⟩

theorem MoveEvent.codec_refuses {e : MoveEvent} (h : e.fields.Refuses (.sorted Value.embedded) depth) :
    codec.Refuses (depth + 1) (· = codec.write e) := by
  have hrefuses : Codec.value.Refuses depth (· = e.fields.write) := by
    rintro before cs rest hb rfl hr
    exact h before rest hb hr
  have htext (s : String) := Codec.text_rereads s depth
  exact Codec.record_refuses (by decide)
    ⟨⟨rfl, .inl (htext _)⟩, ⟨rfl, .inl (htext _)⟩, ⟨rfl, .inl (htext _)⟩, ⟨rfl, .inl (htext _)⟩, ⟨rfl, .inr hrefuses⟩,
      ⟨rfl, .inl (htext _)⟩, trivial⟩
    (.inr (.inr (.inr (.inr (.inl hrefuses)))))

theorem Publish.codec_rereads (e : Publish) : codec.Rereads (depth + 1) e :=
  Codec.record_read_as (by decide) rfl ⟨text_rereads, text_rereads, int64_rereads, text_rereads, trivial⟩

theorem CoinBalanceChange.codec_rereads (e : CoinBalanceChange) : codec.Rereads (depth + 3) e :=
  Codec.record_read_as (by decide) rfl
    ⟨text_rereads, text_rereads, text_rereads, ⟨rfl, ChangeType.codec_rereads _ _⟩, owner_rereads, text_rereads,
      text_rereads, int64_rereads, int64_rereads, trivial⟩

theorem ObjectTransfer.codec_rereads (name : String) (e : ObjectTransfer) : (codec name).Rereads (depth + 3) e :=
  Codec.record_read_as (by decide) rfl
    ⟨text_rereads, text_rereads, text_rereads, owner_rereads, text_rereads, text_rereads, int64_rereads, trivial⟩

theorem MutateObject.codec_rereads (e : MutateObject) : codec.Rereads (depth + 1) e :=
  Codec.record_read_as (by decide) rfl
    ⟨text_rereads, text_rereads, text_rereads, text_rereads, text_rereads, int64_rereads, trivial⟩

theorem DeleteObject.codec_rereads (e : DeleteObject) : codec.Rereads (depth + 1) e :=
  Codec.record_read_as (by decide) rfl
    ⟨text_rereads, text_rereads, text_rereads, text_rereads, int64_rereads, trivial⟩

theorem countCodec_rereads (name field : String) (n : UInt64) : (countCodec name field).Rereads (depth + 1) n :=
  Codec.record_read_as (List.nodup_singleton field) rfl ⟨uint64_rereads, trivial⟩

end Payloads

theorem decodeTagged_of_reads {α : Type} {c : Codec α} {tag : String} {wrap : α → Payload} {written a : α}
    (hd : Payload.decoder? tag = some fun s => wrap <$> c.decode s) (h : c.Reads maxDepth (· = c.write written) a) :
    decodeTagged tag (c.encode written) = .ok (wrap a) := by
  rw [decodeTagged, hd]
  simp only [Codec.decode_encode h]
  rfl

/-- A payload is read back from its text under its own tag, if the fields of a package's event can be read back. -/
theorem decodeTagged_encode {p : Payload}
    (h : ∀ e, p = .moveEvent e → e.fields.Readable (.sorted Value.embedded) 126) :
    decodeTagged p.category.tag p.encode = .ok p := by
  cases p with
  | moveEvent e => exact decodeTagged_of_reads rfl (MoveEvent.codec_reads (Codec.value_reads (h e rfl).rereads))
  | publish e => exact decodeTagged_of_reads rfl e.codec_rereads
  | coinBalanceChange e => exact decodeTagged_of_reads rfl e.codec_rereads
  | transferObject e => exact decodeTagged_of_reads rfl (e.codec_rereads "TransferObject")
  | newObject e => exact decodeTagged_of_reads rfl (e.codec_rereads "NewObject")
  | deleteObject e => exact decodeTagged_of_reads rfl e.codec_rereads
  | mutateObject e => exact decodeTagged_of_reads rfl e.codec_rereads
  | epochChange n => exact decodeTagged_of_reads rfl (countCodec_rereads "EpochChange" "epoch_id" n)
  | checkpoint n => exact decodeTagged_of_reads rfl (countCodec_rereads "Checkpoint" "checkpoint_sequence_number" n)

theorem decode_of_decodeTagged {tag s : String} {e : MoveEvent} (h : decodeTagged tag s = .ok (.moveEvent e)) :
    MoveEvent.codec.decode s = .ok e := by
  have htag : Category.moveEvent.tag = tag := by
    have hcategory := List.find?_some (ofTag?_of_decodeTagged h)
    exact beq_iff_eq.mp hcategory
  have hdecoder : Payload.decoder? Category.moveEvent.tag =
      some fun s => Payload.moveEvent <$> MoveEvent.codec.decode s := rfl
  rw [← htag, decodeTagged, hdecoder] at h
  dsimp only at h
  split at h
  · rename_i p hp
    cases h
    obtain ⟨e', he, hwrapped⟩ := map_ok.mp hp
    cases hwrapped
    exact he
  · cases h

/-- The fields of an event that was decoded are as the reader keeps values. -/
theorem kept_fields {tag s : String} {e : MoveEvent} (h : decodeTagged tag s = .ok (.moveEvent e)) :
    e.fields.Kept := by
  obtain ⟨_, _, hread⟩ := Codec.read_of_decode (decode_of_decodeTagged h)
  obtain ⟨⟨_, _, _, _, fields, _⟩, ⟨_, _, _, _, hfields, _⟩, rfl⟩ := Codec.obtained_record hread
  rcases hfields with hnull | ⟨_, _, _, hread⟩
  · cases hnull
    exact .null
  · exact Value.kept_value hread

/-- The text of an event of which the fields are refused is refused. -/
theorem decodeTagged_encode_ne {e : MoveEvent} (h : e.fields.Refuses (.sorted Value.embedded) 126) :
    decodeTagged (Payload.moveEvent e).category.tag (Payload.moveEvent e).encode ≠ .ok (.moveEvent e) := by
  intro hdecoded
  obtain ⟨fault, hfault⟩ := Codec.decode_encode_refused (MoveEvent.codec_refuses h)
  have hread : MoveEvent.codec.decode (MoveEvent.codec.encode e) = .ok e := decode_of_decodeTagged hdecoded
  rw [hfault] at hread
  cases hread

/-- Decoding undoes encoding for every payload that was decoded, real numbers apart, as long as no object in the fields
of a package's event starts with the embedded key and brackets nest no deeper than a payload lets them. Decoded fields
may break either: sorting moves the key to the front, and a text under it is a document of its own. -/
theorem decodeTagged_encode_iff {tag s : String} {p : Payload} (h : decodeTagged tag s = .ok p)
    (hfloat : ∀ e, p = .moveEvent e → e.fields.floatless = true) :
    decodeTagged p.category.tag p.encode = .ok p ↔
      ∀ e, p = .moveEvent e → e.fields.unreserved = true ∧ e.fields.depth < maxDepth := by
  constructor
  · intro hround e he
    subst he
    by_contra hplain
    have hplain' : ¬(e.fields.unreserved = true ∧ e.fields.depth ≤ 126) := fun hp =>
      hplain ⟨hp.1, Nat.lt_succ_of_le hp.2⟩
    exact decodeTagged_encode_ne ((kept_fields h).refuses (hfloat e rfl) hplain') hround
  · intro hplain
    refine decodeTagged_encode fun e he => ?_
    subst he
    obtain ⟨hreserved, hdepth⟩ := hplain e rfl
    exact (kept_fields h).readable (hfloat e rfl) hreserved (Nat.le_of_lt_succ hdepth)

/-- An event with the given fields. -/
def sample (fields : Value) : Payload := .moveEvent ⟨"p", "m", "s", "t", fields, ""⟩

/-- The text of an event with a list. -/
def listText : String :=
  "\x7b\"packageId\":\"p\",\"transactionModule\":\"m\",\"sender\":\"s\",\"type\":\"t\",\"fields\":[null],\"bcs\":\"\"\x7d"

theorem decodeTagged_encode_list :
    decodeTagged "moveEvent" listText = .ok (sample (.list [.null])) ∧
    (∀ e, sample (.list [.null]) = .moveEvent e → e.fields.floatless = true) ∧
    (decodeTagged (sample (.list [.null])).category.tag (sample (.list [.null])).encode = .ok (sample (.list [.null])) ↔
      ∀ e, sample (.list [.null]) = .moveEvent e → e.fields.unreserved = true ∧ e.fields.depth < maxDepth) := by
  have htext : (sample (.list [.null])).encode = listText := rfl
  have hreadable : ∀ e, sample (.list [.null]) = .moveEvent e → e.fields.Readable (.sorted Value.embedded) 126 := by
    rintro _ ⟨⟩
    exact .list (by simpa using .null)
  have hdecoded : decodeTagged "moveEvent" listText = .ok (sample (.list [.null])) := by
    have hround := decodeTagged_encode hreadable
    rw [htext] at hround
    exact hround
  have hfloat : ∀ e, sample (.list [.null]) = .moveEvent e → e.fields.floatless = true := by
    rintro _ ⟨⟩
    rfl
  exact ⟨hdecoded, hfloat, decodeTagged_encode_iff hdecoded hfloat⟩

/-- A text of an event without real numbers that is decoded, but not read back once it is encoded. -/
def Irreversible (s : String) : Prop :=
  ∃ p, decodeTagged "moveEvent" s = .ok p ∧ (∀ e, p = .moveEvent e → e.fields.floatless = true) ∧
    decodeTagged p.category.tag p.encode ≠ .ok p

theorem irreversible_encode {written fields : Value} (hread : Codec.value.Reads 126 (· = written.write) fields)
    (hfloat : fields.floatless = true) (hplain : ¬(fields.unreserved = true ∧ fields.depth ≤ 126)) :
    Irreversible (sample written).encode := by
  have hdecoded : decodeTagged "moveEvent" (sample written).encode = .ok (sample fields) :=
    decodeTagged_of_reads rfl (MoveEvent.codec_reads hread)
  refine ⟨_, hdecoded, ?_, decodeTagged_encode_ne ((kept_fields hdecoded).refuses hfloat hplain)⟩
  rintro _ ⟨⟩
  exact hfloat

/-- Null within brackets. -/
def nested : Nat → Value
  | 0 => .null
  | n + 1 => .list [nested n]

theorem nested_spec (n : Nat) :
    (nested n).Kept ∧ (nested n).floatless = true ∧ (nested n).unreserved = true ∧ (nested n).depth = n := by
  induction n with
  | zero => exact ⟨.null, rfl, rfl, rfl⟩
  | succ n ih =>
    obtain ⟨hkept, hfloat, hreserved, hdepth⟩ := ih
    refine ⟨.list (by simpa [nested] using hkept), ?_, ?_, ?_⟩
    · simpa [nested, Value.floatless, Value.all, Value.allItems, Value.isReal] using hfloat
    · simpa [nested, Value.unreserved, Value.all, Value.allItems, Value.isReserved] using hreserved
    · simp [nested, Value.depth, Value.depthItems, hdepth]

theorem irreversible_embedded :
    Irreversible (sample (.object [("a", .number (.whole 1)), (embeddedKey, .text "5")])).encode ∧
    Irreversible (sample (.object [(embeddedKey, .text (String.ofList (nested 127).write))])).encode := by
  constructor
  · -- The embedded key is read second, and is written first.
    have hmembers : ∀ m ∈ [("a", Value.number (.whole 1)), (embeddedKey, .text "5")],
        m.2.Rereads (.sorted Value.embedded) 125 := by
      refine List.forall_mem_cons.mpr ⟨?_, List.forall_mem_singleton.mpr ?_⟩
      · exact (Value.Readable.number (by decide) (by decide)).rereads
      · exact (Value.Readable.text "5").rereads
    have hread : Codec.value.Reads 126 (· = (Value.object [("a", .number (.whole 1)), (embeddedKey, .text "5")]).write)
        (.object [(embeddedKey, .text "5"), ("a", .number (.whole 1))]) := by
      refine Codec.value_reads fun before rest hb _ => ?_
      rw [Value.read_blanks hb, Value.read_members hmembers (by simp [Value.Form.embedded?, embeddedKey])]
      rfl
    exact irreversible_encode hread rfl (by simp [Value.unreserved, Value.all, Value.isReserved])
  · -- The text under the embedded key nests as deeply as a document can.
    obtain ⟨hkept, hfloat, hreserved, hdepth⟩ := nested_spec 127
    have hread : Codec.value.Reads 126
        (· = (Value.object [(embeddedKey, .text (String.ofList (nested 127).write))]).write) (nested 127) :=
      Codec.value_reads fun _ rest hb _ =>
        Value.reserved_read (hkept.embedded_write hfloat hreserved (Nat.le_of_eq hdepth)) hb rest
    exact irreversible_encode hread hfloat (by omega)

end EventIntake.Event
