import EventIntake.Proofs.Event.Payload
import EventIntake.Proofs.Record

/-! Every event that decodes has a place in the schema: its tag leads to its category, and its row fits the table of
that category. -/
namespace EventIntake
open Event

/-- The counts among the data of an event, by column. -/
def Event.Payload.counts : Payload → List (String × UInt64)
  | .epochChange epochId => [("epoch_id", epochId)]
  | .checkpoint sequenceNumber => [("checkpoint_sequence_number", sequenceNumber)]
  | _ => []

theorem Event.Category.tag_of_ofTag? {tag : String} {c : Category} (h : ofTag? tag = some c) : c.tag = tag := by
  simpa using List.find?_some h

namespace Row

theorem toInt_capped (n : UInt64) : (capped n).toInt = min (n.toNat : Int) Int64.maxValue.toInt := by
  have hmax : Int64.maxValue.toInt = 9223372036854775807 := rfl
  have hn : (0 : Int) ≤ n.toNat := Int.natCast_nonneg _
  rw [capped, hmax]
  apply Int64.toInt_ofInt_of_le
  · omega
  · omega

/-- What a count is stored as: itself while it fits. -/
def Carries (n : UInt64) (stored : Int64) : Prop :=
  if n.toNat ≤ Int64.maxValue.toInt then stored.toInt = n.toNat else stored = Int64.maxValue

theorem carries_capped (n : UInt64) : Carries n (capped n) := by
  rw [Carries]
  split
  · rename_i h
    rw [toInt_capped]
    omega
  · rename_i h
    apply Int64.toInt_inj.mp
    rw [toInt_capped]
    omega

theorem columns_ofEvent (info : Meta) (p : Payload) :
    (ofEvent info p).data.map (fun col => (col.1, col.2.kind?)) =
      (Schema.dataColumns p.category).map fun col => (col.1, some col.2) := by
  cases p <;> rfl

theorem mem_data_of_counts {info : Meta} {p : Payload} {count : String × UInt64}
    (h : count ∈ ("timestamp", info.timestamp) :: p.counts) :
    (count.1, .int (capped count.2)) ∈ (ofEvent info p).data := by
  rcases List.mem_cons.mp h with rfl | h
  · cases p <;> exact .head _
  · cases p with
    | epochChange | checkpoint =>
      cases List.mem_singleton.mp h
      exact .tail _ (.head _)
    | _ => cases h

end Row

/-- Decoders, tags, tables and rows agree. A tag is known if and only if it is that of a category. An event that
decodes under it is of this category and has a single row, of the one table of the category and with its key: a
value of the right type for each column, in order, and each count exact or capped. The tables of events of
different tags differ. -/
theorem decoded_event_fits_schema (tag s : String) (info : Meta) :
    (knownTag tag = true ↔ ∃ c, Category.ofTag? tag = some c) ∧
      ∀ p, decodeTagged tag s = .ok p →
        Category.ofTag? tag = some p.category ∧
          ∃ row, Record.ofEvent info p = [row] ∧
            (∀ c, row.table = Schema.tableName c ↔ c = p.category) ∧
            row.keys = [("tx_digest", .text info.txDigest), ("event_seq", .int info.eventSeq)] ∧
            row.data.map (fun col => (col.1, col.2.kind?)) =
              (Schema.dataColumns p.category).map (fun col => (col.1, some col.2)) ∧
            (∀ count ∈ ("timestamp", info.timestamp) :: p.counts,
              ∃ stored, (count.1, .int stored) ∈ row.data ∧ Row.Carries count.2 stored) ∧
            ∀ tag' s' p', decodeTagged tag' s' = .ok p' → tag' ≠ tag →
              (Row.ofEvent info p').table ≠ row.table := by
  refine ⟨?_, fun p hp => ?_⟩
  · rw [knownTag, Payload.isSome_decoder?, Option.isSome_iff_exists]
  · have htag := ofTag?_of_decodeTagged hp
    refine ⟨htag, Row.ofEvent info p, rfl, fun c => ?_, Row.keys_ofEvent info p, Row.columns_ofEvent info p,
      fun count hcount => ⟨_, Row.mem_data_of_counts hcount, Row.carries_capped count.2⟩, ?_⟩
    · rw [Row.table_ofEvent]
      exact ⟨fun h => (Schema.tableName_injective h).symm, fun h => h ▸ rfl⟩
    · intro tag' s' p' hp' hne htable
      rw [Row.table_ofEvent, Row.table_ofEvent] at htable
      have hcategory := Schema.tableName_injective htable
      have htag' := ofTag?_of_decodeTagged hp'
      rw [hcategory] at htag'
      exact hne ((Category.tag_of_ofTag? htag').symm.trans (Category.tag_of_ofTag? htag))

/-- The greatest count is stored as the greatest number that fits. -/
example : (Row.ofEvent ⟨7, "d", 1⟩ (.checkpoint 18446744073709551615)).data =
    [("timestamp", .int 7), ("checkpoint_sequence_number", .int 9223372036854775807)] := by
  decide

end EventIntake
