import EventIntake.Proofs.Event.Rendering
import EventIntake.Proofs.Json.Deciding
import EventIntake.Proofs.Subscription.Lifecycle

/-! A notification is a push on a detour. Its envelope is kept as text first and decoded afterwards, and comes to what it
comes to when it is pushed under the same subscription. -/
namespace EventIntake
open Json Grammar

namespace Event

/-! ### Notifications -/

/-- The texts of a notification, with the given text for its result. -/
def Notification.Rendered (n : Notification) : Shape :=
  Grammar.Rendered ["subscription", "result"]
    [("subscription", (· = (toString n.subscription.toNat).toList)), ("result", (· = n.result.toList))]

/-- The text that is written is one of those of the notification. -/
theorem Notification.rendered_encode (n : Notification) :
    Padded n.Rendered (Notification.codec.encode n).toList := by
  rw [Codec.encode, String.toList_ofList]
  refine padded_of ((object_writeMembers ?_).rendered _)
  exact .cons ⟨rfl, rfl⟩ (.cons ⟨rfl, rfl⟩ .nil)

theorem Notification.reads_rendered (n : Notification) (h : Valid n.result.toList) (depth : Nat) :
    Notification.codec.Reads (depth + 1) n.Rendered n := by
  have hraw : Codec.raw.Reads depth (· = n.result.toList) n.result := by
    rintro before _ rest hb rfl hr
    have hread := Raw.read_valid hb h hr
    rwa [String.ofList_toList] at hread
  have hresult := Values.Spelled.member (f := .required "result" .raw) hraw .nil
  have hid := Codec.uint64_reads n.subscription depth
  exact Codec.record_reads_rendered (by decide) (.member hid hresult)

/-- Blanks around the result count as blanks around the value. -/
theorem Notification.Rendered.trim {n : Notification} {cs : List Char} (h : n.Rendered cs) {t : String}
    (ht : Padded (· = t.toList) n.result.toList) : Notification.Rendered ⟨n.subscription, t⟩ cs := by
  refine Grammar.Rendered.imp h (.cons ⟨rfl, fun _ h => h⟩ (.cons ⟨rfl, ?_⟩ .nil))
  obtain ⟨before, _, after, hbefore, rfl, hafter, he⟩ := ht
  rintro _ ⟨ahead, _, behind, hahead, rfl, hbehind, rfl⟩
  exact ⟨ahead ++ before, _, after ++ behind, hahead.append hbefore, rfl, hafter.append hbehind, by simp [he]⟩

theorem Notification.decode_trimmed {n : Notification} {t raw : String} (hvalid : Valid t.toList)
    (ht : Padded (· = t.toList) n.result.toList) (hraw : Padded n.Rendered raw.toList) :
    Notification.decode raw = .ok ⟨n.subscription, t⟩ := by
  have htrimmed : Padded (Notification.Rendered ⟨n.subscription, t⟩) raw.toList := by
    obtain ⟨before, inside, after, hbefore, hinside, hafter, he⟩ := hraw
    exact ⟨before, inside, after, hbefore, hinside.trim ht, hafter, he⟩
  have hdecode := Codec.decode_reads (Notification.reads_rendered ⟨n.subscription, t⟩ hvalid 126) htrimmed
  rw [Notification.decode, hdecode]

/-! ### Envelopes -/

namespace Wire

theorem EventId.sound_codec : EventId.codec.Sound := by
  refine Codec.sound_record "WireEventId" (fun f hf => ?_) _ _
  simp only [List.mem_cons, List.not_mem_nil, or_false] at hf
  rcases hf with rfl | rfl
  · exact Codec.sound_text
  · exact Codec.sound_int64

theorem EventId.decides_codec : EventId.codec.Decides := by
  refine Codec.decides_record "WireEventId" (fun f hf => ?_) _ _
  simp only [List.mem_cons, List.not_mem_nil, or_false] at hf
  rcases hf with rfl | rfl
  · exact Codec.decides_text
  · exact Codec.decides_int64

theorem Push.sound_codec : Push.codec.Sound := by
  refine Codec.sound_record "WireEnvelope" (fun f hf => ?_) _ _
  simp only [List.mem_cons, List.not_mem_nil, or_false] at hf
  rcases hf with rfl | rfl | rfl | rfl
  · exact Codec.sound_uint64
  · exact Codec.sound_text
  · exact EventId.sound_codec
  · exact Codec.sound_rawMembers

theorem Push.decides_codec : Push.codec.Decides := by
  refine Codec.decides_record "WireEnvelope" (fun f hf => ?_) _ _
  simp only [List.mem_cons, List.not_mem_nil, or_false] at hf
  rcases hf with rfl | rfl | rfl | rfl
  · exact Codec.decides_uint64
  · exact Codec.decides_text
  · exact EventId.decides_codec
  · exact Codec.decides_rawMembers

end Wire

/-- The text of an envelope is JSON. -/
theorem Envelope.valid_of_decode {s : String} {envelope : Envelope} (h : Envelope.decode s = .ok envelope) :
    Padded Valid s.toList := by
  simp only [Envelope.decode] at h
  split at h
  · cases h
  · rename_i p hp
    exact Wire.Push.sound_codec.decode hp

/-- Blanks around a value change neither its envelope nor what is wrong with it. -/
theorem Envelope.decode_padded {s t : String} (ht : Valid t.toList) (hs : Padded (· = t.toList) s.toList) :
    Envelope.decode s = Envelope.decode t := by
  rw [Envelope.decode, Envelope.decode, Wire.Push.decides_codec.decode ht hs]

end Event

/-! ### Routing -/

namespace Subscription
open Event

theorem dispatch_padded {η ω : Type} (handle : Handling η ω) (registry : Registry η) (id : SubscriptionId) (w : ω)
    {s t : String} (ht : Valid t.toList) (hs : Padded (· = t.toList) s.toList) :
    dispatch handle registry id s w = dispatch handle registry id t w := by
  rw [dispatch, dispatch, Envelope.decode_padded ht hs]

theorem notify_rendered {η ω : Type} (handle : Handling η ω) (registry : Registry η) (w : ω) {n : Notification}
    {t raw : String} (hvalid : Valid t.toList) (ht : Padded (· = t.toList) n.result.toList)
    (hraw : Padded n.Rendered raw.toList) :
    notify handle registry raw w = dispatch handle registry n.subscription n.result w := by
  rw [notify, Notification.decode_trimmed hvalid ht hraw, dispatch_padded handle registry n.subscription w hvalid ht]

/-- A notification comes to what the push of its result comes to, whatever JSON the result is and whichever text the
notification has. The result is kept without the blanks around it. Whatever is an envelope is JSON, so that every push
can be sent this way. -/
theorem notify_eq_dispatch :
    (∀ (n : Notification) (raw : String), Padded Valid n.result.toList → Padded n.Rendered raw.toList →
      (∃ t, Raw.document n.result = .ok t ∧ Padded (· = t.toList) n.result.toList ∧
        Notification.decode raw = .ok ⟨n.subscription, t⟩) ∧
      (∀ {η ω : Type} (handle : Handling η ω) (registry : Registry η) (w : ω),
        notify handle registry raw w = dispatch handle registry n.subscription n.result w) ∧
      ∀ {σ τ : Type} [BatchStore σ] (m : Manager σ τ), m.notify raw = m.push n.subscription n.result) ∧
    ∀ (s : String) (envelope : Envelope), Envelope.decode s = .ok envelope → Padded Valid s.toList := by
  refine ⟨fun n raw hresult hraw => ?_, fun s envelope => Envelope.valid_of_decode⟩
  obtain ⟨before, inside, after, hbefore, hinside, hafter, he⟩ := hresult
  obtain ⟨t, rfl⟩ : ∃ t : String, inside = t.toList := ⟨String.ofList inside, (String.toList_ofList).symm⟩
  have ht : Padded (· = t.toList) n.result.toList := ⟨before, _, after, hbefore, rfl, hafter, he⟩
  have hdocument : Raw.document n.result = .ok t :=
    Raw.document_eq_ok_iff.mpr ⟨before, after, hbefore, hinside, hafter, he⟩
  refine ⟨⟨t, hdocument, ht, Notification.decode_trimmed hinside ht hraw⟩, fun handle registry w => ?_, fun m => ?_⟩
  · exact notify_rendered handle registry w hinside ht hraw
  · rw [Manager.notify, Manager.push, notify_rendered Intake.handle m.registry m.intake hinside ht hraw]

/-- An envelope with one entry of an unknown tag. -/
theorem notify_unknown_tag :
    let envelope := Wire.Push.codec.encode ⟨7, "t", ⟨"", 0⟩, [("b", "2")]⟩
    notify (fun (_ : Unit) _ _ _ (calls : Nat) => (.ok (), calls + 1)) ⟨[(5, ⟨.publish, ()⟩)], false⟩
      (Notification.codec.encode ⟨5, envelope⟩) 0 = (.ok { category := some .publish, unknownTags := 1 }, 0) := by
  intro envelope
  have hentries : ∀ e ∈ [("b", "2")], Valid e.2.toList := by
    intro e he
    rw [List.mem_singleton.mp he]
    exact .number (numeral_toString 2)
  have hdecode := Envelope.decode_eq (by simp) hentries (Wire.Push.rendered_encode ⟨7, "t", ⟨"", 0⟩, [("b", "2")]⟩)
  have hvalid := notify_eq_dispatch.2 envelope _ hdecode
  obtain ⟨-, hnotify, -⟩ := notify_eq_dispatch.1 ⟨5, envelope⟩ _ hvalid (Notification.rendered_encode ⟨5, envelope⟩)
  rw [hnotify, dispatch, hdecode]
  decide

end Subscription

end EventIntake
