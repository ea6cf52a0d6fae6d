import EventIntake.Proofs.Event.Envelope
import EventIntake.Proofs.Event.Payload
import EventIntake.Proofs.Sorted
import EventIntake.Subscription.Dispatch

/-! A push calls the handler of its subscription with every event it carries, in order, up to the first
entry that does not decode, and counts what became of each entry. -/
namespace EventIntake.Subscription
open Event

/-- Whether the tag of an entry is that of a category. -/
def recognized (entry : String × String) : Bool := (Category.ofTag? entry.1).isSome

/-- The event of an entry. -/
def event? (entry : String × String) : Option Payload := (decodeTagged entry.1 entry.2).toOption

/-- Why a recognized entry does not decode. -/
def malformed? (entry : String × String) : Option DecodeError :=
  match decodeTagged entry.1 entry.2 with
  | .ok _ => none
  | .error e => if recognized entry then some e else none

/-- The entries before the first malformed one. -/
def leading (entries : List (String × String)) : List (String × String) :=
  entries.takeWhile fun entry => (malformed? entry).isNone

/-- The events of the entries before the first malformed one, in order. -/
def events (entries : List (String × String)) : List Payload := (leading entries).filterMap event?

variable {η ω : Type}

/-- Calls a handler with each event in order, and goes on after failures. -/
def callEach (handle : Handling η ω) (handler : η) (id : SubscriptionId) (info : Meta) :
    List Payload → ω → List (Except HandlerError Unit) × ω
  | [], w => ([], w)
  | p :: rest, w =>
    let (outcome, w) := handle handler id info p w
    let (outcomes, w) := callEach handle handler id info rest w
    (outcome :: outcomes, w)

/-! ### Entries -/

theorem decodeTagged_cases (tag raw : String) :
    (recognized (tag, raw) = false ∧ decodeTagged tag raw = .error (.unknownTag tag)) ∨
      (recognized (tag, raw) = true ∧
        ((∃ fault, decodeTagged tag raw = .error (.payload tag fault)) ∨
          ∃ p, decodeTagged tag raw = .ok p)) := by
  simp only [recognized, ← Payload.isSome_decoder?, decodeTagged]
  cases Payload.decoder? tag with
  | none => exact .inl ⟨rfl, rfl⟩
  | some decode =>
    refine .inr ⟨rfl, ?_⟩
    cases h : decode raw with
    | error fault => exact .inl ⟨fault, by simp only [h]⟩
    | ok p => exact .inr ⟨p, by simp only [h]⟩

theorem leading_cons (entry : String × String) (rest : List (String × String)) :
    leading (entry :: rest) = if (malformed? entry).isSome then [] else entry :: leading rest := by
  cases hm : malformed? entry <;> simp [leading, hm]

theorem leading_eq_self {entries : List (String × String)} (h : entries.findSome? malformed? = none) :
    leading entries = entries := by
  induction entries with
  | nil => rfl
  | cons entry rest ih =>
    obtain ⟨hentry, hrest⟩ := List.forall_mem_cons.mp (List.findSome?_eq_none_iff.mp h)
    simp [leading_cons, hentry, ih (List.findSome?_eq_none_iff.mpr hrest)]

theorem events_cons (entry : String × String) (rest : List (String × String)) :
    events (entry :: rest) =
      if (malformed? entry).isSome then [] else (event? entry).toList ++ events rest := by
  rw [events, leading_cons]
  split
  · rfl
  · cases he : event? entry <;> simp [events, he]

/-- Each recognized entry before the first malformed one has its event. -/
theorem map_ok_events (entries : List (String × String)) :
    (events entries).map Except.ok =
      ((leading entries).filter recognized).map fun entry => decodeTagged entry.1 entry.2 := by
  induction entries with
  | nil => rfl
  | cons entry rest ih =>
    obtain ⟨tag, raw⟩ := entry
    rcases decodeTagged_cases tag raw with ⟨hr, hd⟩ | ⟨hr, ⟨_, hd⟩ | ⟨_, hd⟩⟩
    · simp [events_cons, leading_cons, malformed?, event?, hd, hr, Except.toOption, ih]
    · simp [events_cons, leading_cons, malformed?, hd, hr]
    · simp [events_cons, leading_cons, malformed?, event?, hd, hr, Except.toOption, ih]

/-! ### Handler calls -/

theorem length_callEach (handle : Handling η ω) (handler : η) (id : SubscriptionId) (info : Meta)
    (events : List Payload) (w : ω) :
    (callEach handle handler id info events w).1.length = events.length := by
  induction events generalizing w with
  | nil => rfl
  | cons p rest ih => simp [callEach, ih]

theorem deliver_eq (handle : Handling η ω) (handler : η) (id : SubscriptionId) (info : Meta)
    (entries : List (String × String)) (report : Report) (w : ω) :
    deliver handle handler id info entries report w =
      let (outcomes, after) := callEach handle handler id info (events entries) w
      match entries.findSome? malformed? with
      | some e => (.error (.decode id e), after)
      | none =>
        (.ok ⟨report.category, report.handled + outcomes.countP Except.isOk,
          report.unknownTags + entries.countP (fun entry => !recognized entry),
          report.handlerFailures + outcomes.countP (fun outcome => !outcome.isOk)⟩, after) := by
  induction entries generalizing report w with
  | nil => rfl
  | cons entry rest ih =>
    obtain ⟨tag, raw⟩ := entry
    rcases decodeTagged_cases tag raw with ⟨hr, hd⟩ | ⟨hr, ⟨fault, hd⟩ | ⟨p, hd⟩⟩
    · have hm : malformed? (tag, raw) = none := by simp [malformed?, hd, hr]
      have he : events ((tag, raw) :: rest) = events rest := by
        simp [events_cons, hm, event?, hd, Except.toOption]
      simp only [deliver, hd, ih, he, List.findSome?_cons, hm, List.countP_cons, hr]
      simp [Nat.add_assoc, Nat.add_comm 1]
    · have hm : malformed? (tag, raw) = some (.payload tag fault) := by simp [malformed?, hd, hr]
      simp [deliver, hd, events_cons, hm, callEach]
    · have hm : malformed? (tag, raw) = none := by simp [malformed?, hd]
      have he : events ((tag, raw) :: rest) = p :: events rest := by
        simp [events_cons, hm, event?, hd, Except.toOption]
      simp only [deliver, hd, he, callEach, List.findSome?_cons, hm, List.countP_cons, hr]
      rcases handle handler id info p w with ⟨_ | _, w'⟩ <;>
        simp [ih, Except.isOk, Except.toBool, Nat.add_assoc, Nat.add_comm 1]

/-- Delivery leaves the world as the calls do, also when an entry ends it. -/
theorem deliver_snd (handle : Handling η ω) (handler : η) (id : SubscriptionId) (info : Meta)
    (entries : List (String × String)) (report : Report) (w : ω) :
    (deliver handle handler id info entries report w).2 =
      (callEach handle handler id info (events entries) w).2 := by
  rw [deliver_eq]
  cases entries.findSome? malformed? <;> rfl

/-- A delivery without failed calls reports none. -/
theorem deliver_handlerFailures {handle : Handling η ω} {handler : η} {id : SubscriptionId} {info : Meta}
    {entries : List (String × String)} {report after : Report} {w : ω}
    (hok : ∀ outcome ∈ (callEach handle handler id info (events entries) w).1, outcome.isOk = true)
    (h : (deliver handle handler id info entries report w).1 = .ok after) :
    after.handlerFailures = report.handlerFailures := by
  rw [deliver_eq] at h
  cases hm : entries.findSome? malformed? with
  | some e => simp [hm] at h
  | none =>
    simp only [hm] at h
    cases h
    simpa [List.countP_eq_zero] using hok

/-- Each entry is counted once. -/
theorem counts_add_up (handle : Handling η ω) (handler : η) (id : SubscriptionId) (info : Meta)
    {entries : List (String × String)} (h : entries.findSome? malformed? = none) (w : ω) :
    let outcomes := (callEach handle handler id info (events entries) w).1
    outcomes.countP Except.isOk + entries.countP (fun entry => !recognized entry) +
      outcomes.countP (fun outcome => !outcome.isOk) = entries.length := by
  intro outcomes
  have hcalls : outcomes.countP Except.isOk + outcomes.countP (fun outcome => !outcome.isOk) =
      entries.countP recognized := by
    rw [List.countP_eq_length_filter (p := recognized), ← leading_eq_self h, ← List.length_map,
      ← map_ok_events, List.length_map, ← length_callEach handle handler id info _ w]
    simpa using (List.length_eq_countP_add_countP Except.isOk (l := outcomes)).symm
  have hentries := List.length_eq_countP_add_countP recognized (l := entries)
  simp only [Bool.not_eq_true, Bool.decide_eq_false] at hentries
  omega

/-! ### Pushes -/

theorem Registry.closed_of_lookup {registry : Registry η} {id : SubscriptionId} {route : Route η}
    (h : registry.lookup id = some route) : registry.closed = false := by
  cases hc : registry.closed with
  | false => rfl
  | true => simp [Registry.lookup, hc] at h

theorem Registry.mem_of_lookup {registry : Registry η} {id : SubscriptionId} {route : Route η}
    (h : registry.lookup id = some route) : (id, route) ∈ registry.routes := by
  have hc := closed_of_lookup h
  exact Sorted.mem_of_find? (by simpa [Registry.lookup, hc] using h)

theorem Registry.lookup_eq_none_iff (registry : Registry η) (id : SubscriptionId) :
    registry.lookup id = none ↔ registry.closed = true ∨ id ∉ registry.routes.map Prod.fst := by
  rw [← Sorted.find?_eq_none_iff]
  cases h : registry.closed <;> simp [Registry.lookup, h]

/-- An envelope is decoded before the registry is asked, and its entries come in ascending order of the
bytes of their tags. A live subscription has its handler called with the event of each recognized entry,
whatever the outcomes, up to the first that does not decode. -/
theorem dispatch_calls_each (handle : Handling η ω) (registry : Registry η) (id : SubscriptionId)
    (raw : String) (w : ω) :
    match Envelope.decode raw with
    | .error e => dispatch handle registry id raw w = (.error (.decode id e), w)
    | .ok ⟨info, entries⟩ =>
      (entries.Pairwise fun a b => Text.bytes a.1 < Text.bytes b.1) ∧
        if registry.closed = true ∨ id ∉ registry.routes.map Prod.fst then
          dispatch handle registry id raw w = (.ok {}, w)
        else
          ∃ route, registry.lookup id = some route ∧
            (events entries).map Except.ok =
                ((leading entries).filter recognized).map (fun entry => decodeTagged entry.1 entry.2) ∧
              let (outcomes, after) := callEach handle route.handler id info (events entries) w
              match entries.findSome? malformed? with
              | some e => dispatch handle registry id raw w = (.error (.decode id e), after)
              | none =>
                ∃ report, dispatch handle registry id raw w = (.ok report, after) ∧
                  report = ⟨some route.category, outcomes.countP Except.isOk,
                    entries.countP fun entry => !recognized entry,
                    outcomes.countP fun outcome => !outcome.isOk⟩ ∧
                  report.handled + report.unknownTags + report.handlerFailures = entries.length := by
  cases hd : Envelope.decode raw with
  | error e => simp only [dispatch, hd]
  | ok envelope =>
    refine ⟨Envelope.payloads_byte_order hd, ?_⟩
    split
    · rename_i hno
      have hl := (registry.lookup_eq_none_iff id).mpr hno
      simp only [dispatch, hd, hl]
    · rename_i hlive
      obtain ⟨route, hl⟩ := Option.ne_none_iff_exists'.mp
        (mt (registry.lookup_eq_none_iff id).mp hlive)
      refine ⟨route, hl, map_ok_events envelope.payloads, ?_⟩
      simp only [dispatch, hd, hl, deliver_eq, Nat.zero_add]
      cases hm : envelope.payloads.findSome? malformed? with
      | some e => rfl
      | none => exact ⟨_, rfl, rfl, counts_add_up handle _ id _ hm w⟩

/-! ### Handlers that agree -/

section Agreeing
variable {ω' : Type} {handle : Handling η ω} {handle' : Handling η ω'} {f : ω → ω'}

theorem callEach_agreeing
    (h : ∀ handler id info p w, handle' handler id info p (f w) =
      ((handle handler id info p w).1, f (handle handler id info p w).2))
    (handler : η) (id : SubscriptionId) (info : Meta) (events : List Payload) (w : ω) :
    callEach handle' handler id info events (f w) =
      ((callEach handle handler id info events w).1, f (callEach handle handler id info events w).2) := by
  induction events generalizing w with
  | nil => rfl
  | cons p rest ih => simp only [callEach, h, ih]

/-- Pushes come to the same through handlers that do the same on what they both see of a world. -/
theorem dispatch_agreeing
    (h : ∀ handler id info p w, handle' handler id info p (f w) =
      ((handle handler id info p w).1, f (handle handler id info p w).2))
    (registry : Registry η) (id : SubscriptionId) (raw : String) (w : ω) :
    dispatch handle' registry id raw (f w) =
      ((dispatch handle registry id raw w).1, f (dispatch handle registry id raw w).2) := by
  simp only [dispatch]
  cases Envelope.decode raw with
  | error e => rfl
  | ok envelope =>
    cases registry.lookup id with
    | none => rfl
    | some route =>
      simp only [deliver_eq, callEach_agreeing h]
      cases envelope.payloads.findSome? malformed? <;> rfl

end Agreeing

/-! ### Noting the calls -/

/-- A call of a handler. -/
structure Invocation (η : Type) where
  handler : η
  subscription : SubscriptionId
  info : Meta
  event : Payload

/-- Does what `handle` does, and notes each call behind the earlier ones. -/
def noting (handle : Handling η ω) : Handling η (ω × List (Invocation η)) :=
  fun handler id info p (w, noted) =>
    let (outcome, w) := handle handler id info p w
    (outcome, w, noted ++ [⟨handler, id, info, p⟩])

/-- The calls that a push leads to. They depend on no outcome. -/
def invocations (registry : Registry η) (id : SubscriptionId) (raw : String) : List (Invocation η) :=
  match Envelope.decode raw, registry.lookup id with
  | .ok envelope, some route =>
    (events envelope.payloads).map (Invocation.mk route.handler id envelope.info)
  | _, _ => []

theorem callEach_noting (handle : Handling η ω) (handler : η) (id : SubscriptionId) (info : Meta)
    (events : List Payload) (w : ω) (noted : List (Invocation η)) :
    callEach (noting handle) handler id info events (w, noted) =
      let (outcomes, after) := callEach handle handler id info events w
      (outcomes, after, noted ++ events.map (Invocation.mk handler id info)) := by
  induction events generalizing w noted with
  | nil => simp [callEach]
  | cons p rest ih => simp [callEach, noting, ih]

/-- A push without calls leaves the world as it was. Any other is delivered to the live subscription. -/
theorem dispatch_cases (handle : Handling η ω) (registry : Registry η) (id : SubscriptionId)
    (raw : String) (w : ω) :
    (invocations registry id raw = [] ∧
        ∃ result, dispatch handle registry id raw w = (result, w) ∧
          ∀ report, result = .ok report → report = {}) ∨
      ∃ route info entries, registry.lookup id = some route ∧
        invocations registry id raw = (events entries).map (Invocation.mk route.handler id info) ∧
        dispatch handle registry id raw w =
          deliver handle route.handler id info entries { category := some route.category } w := by
  cases hd : Envelope.decode raw with
  | error e =>
    exact .inl ⟨by simp [invocations, hd], .error (.decode id e), by simp [dispatch, hd], by simp⟩
  | ok envelope =>
    cases hl : registry.lookup id with
    | none =>
      exact .inl ⟨by simp [invocations, hd, hl], .ok {}, by simp [dispatch, hd, hl], by simp⟩
    | some route =>
      exact .inr ⟨route, envelope.info, envelope.payloads, rfl, by simp [invocations, hd, hl],
        by simp [dispatch, hd, hl]⟩

/-- Noting changes neither the result nor the world, and the notes are the calls of the push. -/
theorem dispatch_noting (handle : Handling η ω) (registry : Registry η) (id : SubscriptionId)
    (raw : String) (w : ω) (noted : List (Invocation η)) :
    dispatch (noting handle) registry id raw (w, noted) =
      let (result, after) := dispatch handle registry id raw w
      (result, after, noted ++ invocations registry id raw) := by
  simp only [dispatch, invocations]
  cases Envelope.decode raw with
  | error e => simp
  | ok envelope =>
    cases registry.lookup id with
    | none => simp
    | some route =>
      simp only [deliver_eq, callEach_noting]
      cases envelope.payloads.findSome? malformed? <;> rfl

end EventIntake.Subscription
