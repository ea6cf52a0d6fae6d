import EventIntake.Proofs.Subscription.Agreement
import Mathlib.Data.List.DropRight
import Mathlib.Data.List.Induction

/-! A registry answers from the calls made so far. An id leads to the handler that registered it first since the id was
last removed. Closing hides the routes for good and keeps them. -/
namespace EventIntake.Subscription
open Event

namespace Registry

variable {η ω : Type}

/-- What a registry can be asked, on its own and for a push. -/
inductive Call (η : Type)
  | register (id : SubscriptionId) (category : Category) (handler : η)
  | lookup (id : SubscriptionId)
  | remove (id : SubscriptionId)
  | removeFor (id : SubscriptionId) (category : Category)
  | close
  | dispatch (id : SubscriptionId) (raw : String)
  deriving DecidableEq, Repr

inductive Answer (η : Type)
  | registered (result : Except RegistryError Unit)
  | found (route : Option (Route η))
  | removed (category : Option Category)
  | removedFor (removed : Bool)
  | closed
  | dispatched (result : Except DispatchError Report)

namespace Call

/-- The id that the call is about. -/
def subscription? : Call η → Option SubscriptionId
  | register id _ _ | lookup id | remove id | removeFor id _ | dispatch id _ => some id
  | close => none

def closes : Call η → Bool
  | close => true
  | _ => false

def run (handle : Handling η ω) (c : Call η) (r : Registry η) (w : ω) : Answer η × Registry η × ω :=
  match c with
  | register id category handler =>
    match r.register id category handler with
    | .error e => (.registered (.error e), r, w)
    | .ok r => (.registered (.ok ()), r, w)
  | lookup id => (.found (r.lookup id), r, w)
  | remove id =>
    let (category, r) := r.remove id
    (.removed category, r, w)
  | removeFor id category =>
    let (removed, r) := r.removeFor id category
    (.removedFor removed, r, w)
  | close => (.closed, r.close, w)
  | dispatch id raw =>
    let (result, w) := Subscription.dispatch handle r id raw w
    (.dispatched result, r, w)

end Call

/-! ### What the calls tell -/

/-- Whether an answered call removed the id. -/
def removes (id : SubscriptionId) : Call η × Answer η → Bool
  | (.remove j, _) => j = id
  | (.removeFor j _, .removedFor removed) => removed && j = id
  | _ => false

/-- The route that an answered call gave to the id. -/
def registered? (id : SubscriptionId) : Call η × Answer η → Option (Route η)
  | (.register j category handler, .registered (.ok ())) => if j = id then some ⟨category, handler⟩ else none
  | _ => none

/-- The route of the first successful registration of the id since its last removal. -/
def held (id : SubscriptionId) (answered : List (Call η × Answer η)) : Option (Route η) :=
  (answered.rtakeWhile fun a => !removes id a).findSome? (registered? id)

theorem held_concat (id : SubscriptionId) (answered : List (Call η × Answer η)) (a : Call η × Answer η) :
    held id (answered ++ [a]) = if removes id a then none else (held id answered).or (registered? id a) := by
  rw [held, List.rtakeWhile_concat]
  cases removes id a <;> simp [held]

/-! ### One call -/

section Call
variable (handle : Handling η ω) (c : Call η) (r : Registry η) (w : ω)

/-- Only a registration that succeeds adds a route, and only to an id without one. Only a removal takes one away. -/
theorem find?_routes_run (h : Sorted.Ascending r.routes) (j : SubscriptionId) :
    Sorted.find? j (c.run handle r w).2.1.routes =
      if removes j (c, (c.run handle r w).1) then none
      else (Sorted.find? j r.routes).or (registered? j (c, (c.run handle r w).1)) := by
  cases c with
  | register id category handler =>
    cases hr : r.register id category handler with
    | error e => simp [Call.run, hr, removes, registered?]
    | ok after =>
      obtain ⟨_, hnone, rfl⟩ := register_eq_ok hr
      simp only [Call.run, hr, removes, registered?, Sorted.find?_insert]
      by_cases hj : j = id
      · simp [hj, hnone]
      · simp [hj, Ne.symm hj]
  | lookup id | close | dispatch id raw => simp [Call.run, Registry.close, removes, registered?]
  | remove id => simp [Call.run, Registry.remove, removes, registered?, h.find?_erase, eq_comm]
  | removeFor id category =>
    rcases r.removeFor_cases id category with hr | hr
    · simp [Call.run, hr, removes, registered?]
    · simp [Call.run, hr, removes, registered?, h.find?_erase, eq_comm]

theorem ascending_run (h : Sorted.Ascending r.routes) : Sorted.Ascending (c.run handle r w).2.1.routes := by
  cases c with
  | register id category handler =>
    cases hr : r.register id category handler with
    | error e => simpa [Call.run, hr] using h
    | ok after =>
      obtain ⟨_, _, rfl⟩ := register_eq_ok hr
      simpa [Call.run, hr] using h.insert id ⟨category, handler⟩
  | lookup id | close | dispatch id raw => exact h
  | remove id => exact h.erase id
  | removeFor id category =>
    rcases r.removeFor_cases id category with hr | hr
    · simpa [Call.run, hr] using h
    · simpa [Call.run, hr] using h.erase id

theorem closed_run : (c.run handle r w).2.1.closed = (r.closed || c.closes) := by
  cases c with
  | register id category handler =>
    cases hr : r.register id category handler with
    | error e => simp [Call.run, Call.closes, hr]
    | ok after =>
      obtain ⟨_, _, rfl⟩ := register_eq_ok hr
      simp [Call.run, Call.closes, hr]
  | close => simp [Call.run, Call.closes, Registry.close]
  | lookup id | remove id | dispatch id raw => simp [Call.run, Call.closes, Registry.remove]
  | removeFor id category =>
    rcases r.removeFor_cases id category with hr | hr <;> simp [Call.run, Call.closes, hr]

/-- A call leaves the routes of all other ids alone. -/
theorem find?_routes_run_of_ne (h : Sorted.Ascending r.routes) {j : SubscriptionId}
    (hj : c.subscription? ≠ some j) :
    Sorted.find? j (c.run handle r w).2.1.routes = Sorted.find? j r.routes := by
  have hrun := find?_routes_run handle c r w h j
  have hremoves : removes j (c, (c.run handle r w).1) = false := by
    cases c <;> simp_all [removes, Call.subscription?, Call.run]
  have hregistered : registered? j (c, (c.run handle r w).1) = none := by
    simp only [registered?]
    split
    · rename_i hc
      exact if_neg fun hid => hj ((congrArg (Call.subscription? ∘ Prod.fst) hc).trans (congrArg some hid))
    · rfl
  simpa [hremoves, hregistered] using hrun

end Call

/-! ### All calls -/

/-- A registry with the calls that it has answered, and the world of the handlers. -/
structure History (η ω : Type) where
  answered : List (Call η × Answer η) := []
  registry : Registry η := {}
  world : ω

def Call.next (handle : Handling η ω) (c : Call η) (h : History η ω) : History η ω :=
  let (answer, r, w) := c.run handle h.registry h.world
  ⟨h.answered ++ [(c, answer)], r, w⟩

/-- A new registry after calls in order. -/
def after (handle : Handling η ω) (calls : List (Call η)) (w : ω) : History η ω :=
  calls.foldl (fun h c => c.next handle h) { world := w }

/-- What a registry has come to through calls. -/
structure Comes (calls : List (Call η)) (h : History η ω) : Prop where
  answered : h.answered.map Prod.fst = calls
  ascending : Sorted.Ascending h.registry.routes
  closed : h.registry.closed = calls.any Call.closes
  routes : ∀ id, Sorted.find? id h.registry.routes = held id h.answered

theorem Comes.next {calls : List (Call η)} {h : History η ω} (hc : Comes calls h) (handle : Handling η ω) (c : Call η) :
    Comes (calls ++ [c]) (c.next handle h) where
  answered := by simp [Call.next, hc.answered]
  ascending := ascending_run handle c h.registry h.world hc.ascending
  closed := by
    rw [List.any_append, ← hc.closed, List.any_cons, List.any_nil, Bool.or_false]
    exact closed_run handle c h.registry h.world
  routes id := by
    have hrun := find?_routes_run handle c h.registry h.world hc.ascending id
    rw [hc.routes] at hrun
    exact hrun.trans (held_concat id _ _).symm

theorem comes_after (handle : Handling η ω) (calls : List (Call η)) (w : ω) : Comes calls (after handle calls w) := by
  induction calls using List.reverseRecOn with
  | nil => exact ⟨rfl, .nil, by simp [after], fun _ => rfl⟩
  | append_singleton calls c ih =>
    rw [after, List.foldl_append]
    exact ih.next handle c

namespace Comes
variable {calls : List (Call η)} {h : History η ω} (hc : Comes calls h)
include hc

theorem lookup_eq (id : SubscriptionId) :
    h.registry.lookup id = if calls.any Call.closes then none else held id h.answered := by
  rw [lookup, hc.closed, hc.routes]

/-- The ids with a route, each once. -/
theorem ids : ∃ ids : List SubscriptionId, ids.Nodup ∧ (∀ id, id ∈ ids ↔ (held id h.answered).isSome) ∧
    h.registry.size = ids.length := by
  refine ⟨h.registry.routes.map Prod.fst, ?_, fun id => ?_, (List.length_map _).symm⟩
  · exact List.pairwise_map.mpr (List.Pairwise.imp (fun {a b} hlt (he : a.1 = b.1) => Std.lt_irrefl (he ▸ hlt)) hc.ascending)
  · rw [← hc.routes, Option.isSome_iff_ne_none, ne_eq, Sorted.find?_eq_none_iff, not_not]

end Comes

/-! ### The next call -/

/-- What a registry that has answered calls makes of the next one. The other ids are left alone. A registration fails
if the registry is closed or the id is held, and then changes nothing. A removal answers from what is held, closed or
not. A push reaches the handler that is held, or none once the registry is closed. -/
def Told (handle : Handling η ω) (closed : Bool) (h : History η ω) (c : Call η)
    (outcome : Answer η × Registry η × ω) : Prop :=
  let (answer, r, w) := outcome
  (∀ j, c.subscription? ≠ some j → Sorted.find? j r.routes = Sorted.find? j h.registry.routes) ∧
  match c with
  | .register id category handler =>
    if closed then answer = .registered (.error .closed) ∧ r = h.registry
    else match held id h.answered with
      | some present => answer = .registered (.error (.alreadyRegistered id present.category)) ∧ r = h.registry
      | none => answer = .registered (.ok ()) ∧ r.lookup id = some ⟨category, handler⟩
  | .lookup id => answer = .found (h.registry.lookup id) ∧ r = h.registry
  | .remove id =>
    answer = .removed ((held id h.answered).map Route.category) ∧ Sorted.find? id r.routes = none
  | .removeFor id category =>
    if (held id h.answered).map Route.category = some category then
      answer = .removedFor true ∧ Sorted.find? id r.routes = none
    else answer = .removedFor false ∧ r = h.registry
  | .close => r = { h.registry with closed := true }
  | .dispatch id raw =>
    r = h.registry ∧
    match Envelope.decode raw, if closed then none else held id h.answered with
    | .error e, _ => answer = .dispatched (.error (.decode id e)) ∧ w = h.world
    | .ok _, none => answer = .dispatched (.ok {}) ∧ w = h.world
    | .ok envelope, some route =>
      let (result, after) := deliver handle route.handler id envelope.info envelope.payloads
        { category := some route.category } h.world
      answer = .dispatched result ∧ w = after

theorem Comes.told {calls : List (Call η)} {h : History η ω} (hc : Comes calls h) (handle : Handling η ω) (c : Call η) :
    Told handle (calls.any Call.closes) h c (c.run handle h.registry h.world) := by
  refine ⟨fun j hj => find?_routes_run_of_ne handle c h.registry h.world hc.ascending hj, ?_⟩
  have hclosed := hc.closed
  have hlookup := hc.lookup_eq
  generalize calls.any Call.closes = closed at hclosed hlookup
  cases c with
  | register id category handler =>
    cases closed with
    | true => simp [register, hclosed]
    | false =>
      cases hheld : held id h.answered with
      | some present => simp [register, hclosed, hc.routes, hheld]
      | none => simp [register, hclosed, hc.routes, hheld, lookup, Sorted.find?_insert]
  | lookup id => exact ⟨rfl, rfl⟩
  | remove id => exact ⟨by simp [remove, hc.routes], by simp [remove, hc.ascending.find?_erase]⟩
  | removeFor id category =>
    cases hheld : held id h.answered with
    | none => simp [removeFor, hc.routes, hheld]
    | some present =>
      by_cases hp : present.category = category <;>
        simp [removeFor, hc.routes, hheld, hp, hc.ascending.find?_erase]
  | close => rfl
  | dispatch id raw =>
    refine ⟨rfl, ?_⟩
    cases hd : Envelope.decode raw with
    | error e => simp [Subscription.dispatch, hd]
    | ok envelope =>
      simp only [Subscription.dispatch, hd, hlookup id]
      cases (if closed then none else held id h.answered) with
      | none => exact ⟨rfl, rfl⟩
      | some route => exact ⟨rfl, rfl⟩

/-- A new registry has answered calls in any order. Until it is closed a look-up finds the first handler that
registered the id since the id was last removed, and afterwards none. As many routes are stored as ids are held, and the
next call, whatever it is, is answered from what is held. -/
theorem answers_from_history (handle : Handling η ω) (calls : List (Call η)) (w : ω) :
    let h := after handle calls w
    let closed := calls.any Call.closes
    h.answered.map Prod.fst = calls ∧
      (∀ id, Sorted.find? id h.registry.routes = held id h.answered) ∧
      (∀ id, h.registry.lookup id = if closed then none else held id h.answered) ∧
      (∃ ids : List SubscriptionId, ids.Nodup ∧ (∀ id, id ∈ ids ↔ (held id h.answered).isSome) ∧
        h.registry.size = ids.length) ∧
      ∀ c : Call η, Told handle closed h c (c.run handle h.registry h.world) := by
  intro h closed
  have hc : Comes calls h := comes_after handle calls w
  exact ⟨hc.answered, hc.routes, hc.lookup_eq, hc.ids, hc.told handle⟩

end Registry

end EventIntake.Subscription
