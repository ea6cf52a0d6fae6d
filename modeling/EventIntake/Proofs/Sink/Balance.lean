import EventIntake.Proofs.Sink.Agreement
import EventIntake.Proofs.Subscription.Requests

/-! No subscription at the node is forgotten, and none is opened twice. -/
namespace EventIntake.EventSink
open Event Subscription

variable {σ τ : Type} [BatchStore σ] [Node τ]

/-- The node notes just the listed requests, each made for a category. In every state between steps, a
category has at most one subscription that was opened for it and not closed. It has one exactly if it is
subscribed, and then it holds the id that the node returned for it last. -/
theorem opened_minus_closed (settings : Config.Ingest) (node : τ) (store : σ)
    (rules : Option Rules.Book) (steps : List Step) :
    let first := new settings (⟨node, []⟩ : NotingNode τ) store rules
    let last := (runAll steps first).2.manager
    let asked := Manager.askedAll (movesAll steps first) first.manager
    last.node.noted = asked.map Prod.snd ∧
      ∀ c,
        let live : Int := (opened c asked).length - closed c asked
        (live = 0 ∨ live = 1) ∧
          (live = 1 ↔ ∃ id, last.state c = .subscribed id) ∧
          ∀ id, last.state c = .subscribed id → (opened c asked).getLast? = some id := by
  intro first last asked
  have hfirst : first.manager.Agrees := (complete_new settings _ store rules).agrees
  have hlast : last = first.manager.after (movesAll steps first) := runAll_eq_after steps first
  have hnew : Manager.Booked [] first.manager := ⟨fun _ => rfl, fun _ _ h => by cases h⟩
  have hbooked : Manager.Booked asked last := hlast ▸ hnew.after hfirst _
  refine ⟨by rw [hlast, Manager.noted_after]; rfl, fun c => ?_⟩
  intro live
  have hbalance : live = (last.state c).id?.toList.length := by
    have := hbooked.balance c
    omega
  refine ⟨?_, ?_, fun id hs => hbooked.latest c id (State.id?_eq_some_iff.mpr hs)⟩
  · rw [hbalance]
    cases (last.state c).id? <;> simp
  · rw [hbalance]
    cases hs : last.state c <;> simp [State.id?]

end EventIntake.EventSink
