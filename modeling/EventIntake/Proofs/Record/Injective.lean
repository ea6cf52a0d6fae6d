import EventIntake.Proofs.Event.Owner
import EventIntake.Proofs.Json.Injective
import EventIntake.Proofs.Record.Schema

/-! A row tells all there is to its event, but for the spelling of the sender. -/
namespace EventIntake
open Event Json

/-- What stands in columns, in their order. -/
def Columns.values (cs : Columns) : List Cell := cs.map Prod.snd

theorem Event.ChangeType.name_injective : Function.Injective name := by
  intro a b h
  cases a <;> cases b <;> first | rfl | exact absurd h (by decide)

/-- The event with its sender in normal form. -/
def Event.Payload.normal : Payload → Payload
  | .moveEvent e => .moveEvent { e with sender := Address.normalize e.sender }
  | .publish e => .publish { e with sender := Address.normalize e.sender }
  | .coinBalanceChange e => .coinBalanceChange { e with sender := Address.normalize e.sender }
  | .transferObject e => .transferObject { e with sender := Address.normalize e.sender }
  | .newObject e => .newObject { e with sender := Address.normalize e.sender }
  | .deleteObject e => .deleteObject { e with sender := Address.normalize e.sender }
  | .mutateObject e => .mutateObject { e with sender := Address.normalize e.sender }
  | .epochChange n => .epochChange n
  | .checkpoint n => .checkpoint n

/-- The time of an event and its counts fit their columns. -/
def Storable (info : Meta) (p : Payload) : Prop :=
  ∀ count ∈ ("timestamp", info.timestamp) :: p.counts, count.2.toNat ≤ Int64.maxValue.toInt

namespace Row

theorem capped_inj {m n : UInt64} (hm : m.toNat ≤ Int64.maxValue.toInt) (hn : n.toNat ≤ Int64.maxValue.toInt) :
    capped m = capped n ↔ m = n := by
  refine ⟨fun h => ?_, fun h => h ▸ rfl⟩
  have hint := congrArg Int64.toInt h
  rw [toInt_capped, toInt_capped, min_eq_left hm, min_eq_left hn, Int.ofNat_inj] at hint
  exact UInt64.toNat_inj.mp hint

theorem keys_inj {info info' : Meta} {p p' : Payload}
    (h : Columns.values (ofEvent info p).keys = Columns.values (ofEvent info' p').keys) :
    info.txDigest = info'.txDigest ∧ info.eventSeq = info'.eventSeq := by
  rw [keys_ofEvent, keys_ofEvent] at h
  simpa [Columns.values] using h

/-- The data tell the time of an event, and the event but for the spelling of its sender. -/
theorem data_inj {info info' : Meta} {p p' : Payload} (h : Storable info p) (h' : Storable info' p')
    (hcategory : p.category = p'.category)
    (hdata : Columns.values (ofEvent info p).data = Columns.values (ofEvent info' p').data) :
    info.timestamp = info'.timestamp ∧ p.normal = p'.normal := by
  have htime : capped info.timestamp = capped info'.timestamp ↔ info.timestamp = info'.timestamp :=
    capped_inj (h _ (.head _)) (h' _ (.head _))
  have htype {a b : ChangeType} : a.name = b.name ↔ a = b := ChangeType.name_injective.eq_iff
  have howner {a b : Option Owner} : Owner.text a = Owner.text b ↔ a = b := Owner.text_injective.eq_iff
  cases p <;> cases p' <;> cases hcategory
  case moveEvent.moveEvent e e' =>
    have hfields : e.fields.write = e'.fields.write ↔ e.fields = e'.fields :=
      ⟨Value.write_inj _ _, fun he => he ▸ rfl⟩
    simpa [Columns.values, ofEvent, keyed, origin, Payload.normal, htime, String.ofList_inj, hfields] using hdata
  case epochChange.epochChange n n' =>
    have hcount : capped n = capped n' ↔ n = n' :=
      capped_inj (h _ (.tail _ (.head _))) (h' _ (.tail _ (.head _)))
    simpa [Columns.values, ofEvent, keyed, Payload.normal, htime, hcount] using hdata
  case checkpoint.checkpoint n n' =>
    have hcount : capped n = capped n' ↔ n = n' :=
      capped_inj (h _ (.tail _ (.head _))) (h' _ (.tail _ (.head _)))
    simpa [Columns.values, ofEvent, keyed, Payload.normal, htime, hcount] using hdata
  all_goals
    simpa [Columns.values, ofEvent, keyed, transferred, origin, Payload.normal, htime, htype, howner] using hdata

/-- Rows of one table with the same key and the same data are of the same event at the same time, but for the spelling
of its sender, if no count was capped. The text of an owner tells apart no owner and all owners, and that of fields all
values. -/
theorem row_determines_event :
    (∀ info info' p p', Storable info p → Storable info' p' →
      (ofEvent info p).table = (ofEvent info' p').table →
      Columns.values (ofEvent info p).keys = Columns.values (ofEvent info' p').keys →
      Columns.values (ofEvent info p).data = Columns.values (ofEvent info' p').data →
      info = info' ∧ p.normal = p'.normal) ∧
    (∀ o o' : Option Owner, o ≠ o' → Owner.text o ≠ Owner.text o') ∧
    ∀ v w : Value, v ≠ w → String.ofList v.write ≠ String.ofList w.write := by
  refine ⟨fun info info' p p' h h' htable hkeys hdata => ?_, fun o o' hne htext => hne (Owner.text_injective htext),
    fun v w hne htext => hne (Value.write_inj v w (String.ofList_inj.mp htext))⟩
  have hcategory : p.category = p'.category :=
    Schema.tableName_injective (by rw [← table_ofEvent info, htable, table_ofEvent])
  obtain ⟨hdigest, hseq⟩ := keys_inj hkeys
  obtain ⟨htime, hnormal⟩ := data_inj h h' hcategory hdata
  obtain ⟨timestamp, txDigest, eventSeq⟩ := info
  cases hdigest
  cases hseq
  cases htime
  exact ⟨rfl, hnormal⟩

/-- Two spellings of a sender, and a number next to a text of its digits. -/
theorem two_spellings_one_row :
    let event (sender : String) : Payload :=
      .moveEvent ⟨"0x2", "pay", sender, "0x2::pay::Paid", .object [("amount", .number (.whole 1))], ""⟩
    let info : Meta := ⟨7, "digest", 1⟩
    Storable info (event "0xA") ∧ Storable info (event "0x0a") ∧
      ofEvent info (event "0xA") = ofEvent info (event "0x0a") ∧
      (event "0xA").normal = (event "0x0a").normal ∧
      String.ofList (Value.number (.whole 1)).write ≠ String.ofList (Value.text "1").write := by
  intro event info
  have hstorable (sender : String) : Storable info (event sender) := List.forall_mem_singleton.mpr (by decide)
  have hrow : ofEvent info (event "0xA") = ofEvent info (event "0x0a") := by decide +kernel
  obtain ⟨hdetermines, -, htells⟩ := row_determines_event
  have hsame := hdetermines info info (event "0xA") (event "0x0a") (hstorable _) (hstorable _) (by rw [hrow])
    (by rw [hrow]) (by rw [hrow])
  exact ⟨hstorable _, hstorable _, hrow, hsame.2, htells _ _ (by simp)⟩

end Row

end EventIntake
