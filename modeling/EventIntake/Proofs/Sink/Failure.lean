import EventIntake.Proofs.Sink.Agreement
import EventIntake.Proofs.Sink.Rules
import EventIntake.Proofs.Subscription.Failure

/-! A request to subscribe or to unsubscribe that fails can be made again. Whatever happened before, it leaves all as it
was, but for an id that is in use already and for a buffer that is lost. -/
namespace EventIntake
open Event Subscription

/-- What holds of a manager between requests. -/
structure Subscription.Manager.Steady {σ τ : Type} (m : Manager σ τ) : Prop where
  subscribed : m.AllSubscribed
  agrees : m.Agrees
  coherent : m.Coherent

namespace EventSink

variable {σ τ : Type} [BatchStore σ] [Node τ]

/-- The sink after happenings in order. -/
def afterAll (happenings : List (Happening σ τ)) (s : EventSink σ τ) : EventSink σ τ :=
  happenings.foldl (fun s happening => (happening.run s).2) s

omit [BatchStore σ] [Node τ] in
theorem steady_new (settings : Config.Ingest) (node : τ) (store : σ) (rules : Option Rules.Book) :
    (new settings node store rules).manager.Steady where
  subscribed := fun _ h => by cases h
  agrees := (complete_new settings node store rules).agrees
  coherent := coherent_new settings node store rules

theorem Happening.steady_run {s : EventSink σ τ} (h : s.manager.Steady) (happening : Happening σ τ) :
    (happening.run s).2.manager.Steady := by
  obtain ⟨hsubscribed, hagrees, hcoherent⟩ := h
  cases happening with
  | step taken =>
    have hafter : ((Happening.step taken).run s).2.manager = s.manager.after (taken.moves s) := taken.run_eq_after s
    refine ⟨?_, ?_, (taken.took_run hcoherent).2.1⟩
    · rw [hafter]
      exact hsubscribed.after hagrees _
    · rw [hafter]
      exact hagrees.after _
  | node | store | rules =>
    obtain ⟨hstates, hroutes, hsettled, hheld⟩ := hagrees
    obtain ⟨hsound, hmatched, hclosed, hshut⟩ := hcoherent
    exact ⟨hsubscribed, ⟨hstates, hroutes, hsettled, hheld⟩, ⟨hsound, hmatched, hclosed, hshut⟩⟩

theorem steady_afterAll {s : EventSink σ τ} (h : s.manager.Steady) (happenings : List (Happening σ τ)) :
    (afterAll happenings s).manager.Steady := by
  induction happenings generalizing s with
  | nil => exact h
  | cons happening rest ih => exact ih (happening.steady_run h)

/-- Whatever happened to a sink, a request that the node does not grant, or that comes after the shutdown, leaves
everything but the node as it was, and a subscription that could not be closed is asked to be closed under the same id
again. If the id that the node hands out is in use, then its route stays, and nothing but the state of the category
changes. If the buffer of a closed subscription is lost, then the subscription, its route and its buffer are gone,
and nothing of the buffer is in the store. There are no other failures. -/
theorem failed_requests_leave {κ : Type} [AllOrNothing σ κ] (settings : Config.Ingest) (node : τ) (store : σ)
    (rules : Option Rules.Book) (happenings : List (Happening σ τ)) (c : Category) :
    let m := (afterAll happenings (new settings node store rules)).manager
    (∀ e, (m.subscribe c).1 = .error e → m.SubscribeLeaves c (m.subscribe c).2 e) ∧
      ∀ e, (m.unsubscribe c).1 = .error e → m.UnsubscribeLeaves c (m.unsubscribe c).2 e := by
  intro m
  obtain ⟨hsubscribed, hagrees, hcoherent⟩ := steady_afterAll (steady_new settings node store rules) happenings
  exact ⟨fun e he => Manager.subscribeLeaves hsubscribed hagrees hcoherent he,
    fun e he => Manager.unsubscribeLeaves hagrees hcoherent he⟩

/-- A buffer that a store in memory loses, and an id that is in use, in front of a database. -/
theorem lost_buffer_and_used_id_leave :
    let raw := "\x7b\"timestamp\":1,\"id\":\x7b\"eventSeq\":0\x7d,\"event\":" ++
      "\x7b\"checkpoint\":\x7b\"checkpoint_sequence_number\":7\x7d\x7d\x7d"
    let losing := (afterAll
      [.step (.subscribe .checkpoint), .step (.push 1 raw), .store fun s => { s with failing := true }]
      (new {} ({} : ScriptedNode) ({} : MemoryStore) none)).manager
    let lost := LifecycleError.flush .checkpoint 1 (.flush 1 1 (.unavailable "mock store failure"))
    let used := (afterAll [.step (.subscribe .publish)]
      (new {} (⟨[5, 5]⟩ : PreparedNode) (⟨Database.create {}, .upsert⟩ : DatabaseStore) none)).manager
    let present := LifecycleError.registration .newObject 5 (.alreadyRegistered 5 .publish)
    (losing.unsubscribe .checkpoint).1 = .error lost ∧
      losing.UnsubscribeLeaves .checkpoint (losing.unsubscribe .checkpoint).2 lost ∧
      (used.subscribe .newObject).1 = .error present ∧
      used.SubscribeLeaves .newObject (used.subscribe .newObject).2 present := by
  intro raw losing lost used present
  have hlost : (losing.unsubscribe .checkpoint).1 = .error lost := by decide +kernel
  have hused : (used.subscribe .newObject).1 = .error present := by decide +kernel
  have hleaves := (failed_requests_leave {} ({} : ScriptedNode) ({} : MemoryStore) none _ .checkpoint).2 lost hlost
  have hleaves' := (failed_requests_leave {} (⟨[5, 5]⟩ : PreparedNode)
    (⟨Database.create {}, .upsert⟩ : DatabaseStore) none _ .newObject).1 present hused
  exact ⟨hlost, hleaves, hused, hleaves'⟩

end EventSink

end EventIntake
