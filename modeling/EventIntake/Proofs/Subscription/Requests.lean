import EventIntake.Proofs.Subscription.Agreement

/-! What a manager asks of the node. It opens a subscription only for a category that has none, and after
a confirmed closing the category has none. -/
namespace EventIntake.Subscription
open Event

/-- A request to a node with its answer. -/
inductive Request
  | subscribe (c : Category) (answer : Except TransportError SubscriptionId)
  | unsubscribe (id : SubscriptionId) (answer : Except TransportError Bool)

/-- Passes requests on to another node and notes each with its answer. -/
structure NotingNode (τ : Type) where
  node : τ
  noted : List Request := []

namespace NotingNode
variable {τ : Type} [Node τ]

def subscribe (c : Category) (n : NotingNode τ) : Except TransportError SubscriptionId × NotingNode τ :=
  let (answer, node) := Node.subscribe c n.node
  (answer, ⟨node, n.noted ++ [.subscribe c answer]⟩)

def unsubscribe (id : SubscriptionId) (n : NotingNode τ) : Except TransportError Bool × NotingNode τ :=
  let (answer, node) := Node.unsubscribe id n.node
  (answer, ⟨node, n.noted ++ [.unsubscribe id answer]⟩)

instance : Node (NotingNode τ) := ⟨subscribe, unsubscribe⟩

theorem noted_subscribe {c : Category} {n n' : NotingNode τ} {answer : Except TransportError SubscriptionId}
    (h : Node.subscribe c n = (answer, n')) : n'.noted = n.noted ++ [.subscribe c answer] := by
  cases h
  rfl

theorem noted_unsubscribe {id : SubscriptionId} {n n' : NotingNode τ} {answer : Except TransportError Bool}
    (h : Node.unsubscribe id n = (answer, n')) : n'.noted = n.noted ++ [.unsubscribe id answer] := by
  cases h
  rfl

end NotingNode

/-- The ids that the node returned for a category, oldest first. -/
def opened (c : Category) (asked : List (Category × Request)) : List SubscriptionId :=
  asked.filterMap fun
    | (_, .subscribe d (.ok id)) => if d = c then some id else none
    | _ => none

/-- How many closings made for a category the node confirmed. -/
def closed (c : Category) (asked : List (Category × Request)) : Nat :=
  asked.countP fun
    | (d, .unsubscribe _ (.ok true)) => d = c
    | _ => false

theorem opened_append (c : Category) (asked later : List (Category × Request)) :
    opened c (asked ++ later) = opened c asked ++ opened c later :=
  List.filterMap_append

theorem closed_append (c : Category) (asked later : List (Category × Request)) :
    closed c (asked ++ later) = closed c asked + closed c later :=
  List.countP_append

/-- The id of a subscribed category. -/
def State.id? : State → Option SubscriptionId
  | subscribed id => some id
  | _ => none

theorem State.id?_eq_some_iff {s : State} {id : SubscriptionId} : s.id? = some id ↔ s = .subscribed id := by
  cases s <;> simp [id?]

theorem State.id?_eq_none_iff {s : State} : s.id? = none ↔ ∀ id, s ≠ .subscribed id := by
  cases s <;> simp [id?]

namespace Manager

variable {σ τ : Type}

/-! ### Moves -/

/-- The requests that a move makes, with the category that each is made for. -/
def asked [Node τ] (move : Move) (m : Manager σ τ) : List (Category × Request) :=
  match move with
  | .subscribe c =>
    if m.shutDown then []
    else match m.state c with
      | .subscribed _ => []
      | _ => [(c, .subscribe c (Node.subscribe c m.node).1)]
  | .unsubscribe c =>
    match m.state c with
    | .subscribed id => [(c, .unsubscribe id (Node.unsubscribe id m.node).1)]
    | _ => []
  | .push _ _ | .refuse | .close => []

/-- The requests of moves in order. -/
def askedAll [BatchStore σ] [Node τ] : List Move → Manager σ τ → List (Category × Request)
  | [], _ => []
  | move :: rest, m => m.asked move ++ askedAll rest (move.run m)

theorem asked_subscribe [Node τ] {c : Category} {m : Manager σ τ} {node : τ}
    {answer : Except TransportError SubscriptionId} (hd : m.shutDown = false)
    (hc : ∀ id, m.state c ≠ .subscribed id) (hn : Node.subscribe c m.node = (answer, node)) :
    m.asked (.subscribe c) = [(c, .subscribe c answer)] := by
  cases hs : m.state c <;> simp_all [asked]

theorem asked_unsubscribe [Node τ] {c : Category} {m : Manager σ τ} {id : SubscriptionId} {node : τ}
    {answer : Except TransportError Bool} (hs : m.state c = .subscribed id)
    (hn : Node.unsubscribe id m.node = (answer, node)) :
    m.asked (.unsubscribe c) = [(c, .unsubscribe id answer)] := by
  simp [asked, hs, hn]

theorem asked_idle [Node τ] {c : Category} {m : Manager σ τ} (hc : ∀ id, m.state c ≠ .subscribed id) :
    m.asked (.unsubscribe c) = [] := by
  cases hs : m.state c <;> simp_all [asked]

/-- A node that notes its requests has noted those of the move. -/
theorem noted_move [BatchStore σ] [Node τ] (move : Move) (m : Manager σ (NotingNode τ)) :
    (move.run m).node.noted = m.node.noted ++ (m.asked move).map Prod.snd := by
  cases move with
  | subscribe c =>
    have ho := subscribed c m
    rw [Move.run]
    generalize (m.subscribe c).1 = result, (m.subscribe c).2 = m' at ho ⊢
    cases ho with
    | refused hd => simp [asked, hd]
    | kept hd hs => simp [asked, hd, hs]
    | failed hd hc hn | unrouted hd hc hn _ | opened hd hc hn _ =>
      rw [asked_subscribe hd hc hn]
      exact NotingNode.noted_subscribe hn
  | unsubscribe c =>
    have ho := unsubscribed c m
    rw [Move.run]
    generalize (m.unsubscribe c).1 = result, (m.unsubscribe c).2 = m' at ho ⊢
    cases ho with
    | idle hc => simp [asked_idle hc]
    | failed hs hn | rejected hs hn | unrouted hs hn _ | released hs hn _ _ =>
      rw [asked_unsubscribe hs hn]
      exact NotingNode.noted_unsubscribe hn
  | push | refuse | close => simp [Move.run, asked, push]

theorem noted_after [BatchStore σ] [Node τ] (moves : List Move) (m : Manager σ (NotingNode τ)) :
    (m.after moves).node.noted = m.node.noted ++ (askedAll moves m).map Prod.snd := by
  induction moves generalizing m with
  | nil => simp [after, askedAll]
  | cons move rest ih => simp [after_cons, ih, noted_move, askedAll]

/-! ### Balance -/

/-- What becomes of the subscription of a category during requests. -/
inductive Turn (c : Category) (asked : List (Category × Request)) (s s' : State) : Prop
  | kept : opened c asked = [] → closed c asked = 0 → s'.id? = s.id? → Turn c asked s s'
  | begun (id : SubscriptionId) : opened c asked = [id] → closed c asked = 0 → s.id? = none →
      s'.id? = some id → Turn c asked s s'
  | ended (id : SubscriptionId) : opened c asked = [] → closed c asked = 1 → s.id? = some id →
      s'.id? = none → Turn c asked s s'

theorem turn_subscribe [BatchStore σ] [Node τ] {m : Manager σ τ} (h : m.Agrees) (c d : Category) :
    Turn d (m.asked (.subscribe c)) (m.state d) ((m.subscribe c).2.state d) := by
  have ho := subscribed c m
  generalize (m.subscribe c).1 = result, (m.subscribe c).2 = m' at ho ⊢
  cases ho with
  | refused hd => exact .kept (by simp [asked, hd, opened]) (by simp [asked, hd, closed]) rfl
  | kept hd hs => exact .kept (by simp [asked, hd, hs, opened]) (by simp [asked, hd, hs, closed]) rfl
  | failed hd hc hn =>
    rw [asked_subscribe hd hc hn, state_withdrawn h.states]
    refine .kept rfl rfl ?_
    split
    · rename_i hdc
      rw [hdc, State.id?_eq_none_iff.mpr hc]
      rfl
    · rfl
  | @unrouted id _ node hd hc hn _ | @opened id node _ hd hc hn _ =>
    rw [asked_subscribe hd hc hn]
    have hstate := state_reset m c .subscribing (.subscribed id) node d
    by_cases hdc : d = c
    · subst hdc
      rw [if_pos rfl] at hstate
      exact .begun id (by simp [opened]) rfl (State.id?_eq_none_iff.mpr hc) (congrArg State.id? hstate)
    · rw [if_neg hdc] at hstate
      exact .kept (by simp [opened, Ne.symm hdc]) rfl (congrArg State.id? hstate)

theorem turn_unsubscribe [BatchStore σ] [Node τ] {m : Manager σ τ} (h : m.Agrees) (c d : Category) :
    Turn d (m.asked (.unsubscribe c)) (m.state d) ((m.unsubscribe c).2.state d) := by
  have ho := unsubscribed c m
  generalize (m.unsubscribe c).1 = result, (m.unsubscribe c).2 = m' at ho ⊢
  cases ho with
  | idle hc => exact asked_idle hc ▸ .kept rfl rfl rfl
  | @failed id _ node hs hn | @rejected id node hs hn =>
    rw [asked_unsubscribe hs hn, state_reset]
    refine .kept rfl rfl ?_
    split
    · rename_i hdc
      rw [hdc, hs]
    · rfl
  | @unrouted id node hs hn _ | @released id node _ _ hs hn _ _ =>
    rw [asked_unsubscribe hs hn]
    have hstate := state_withdrawn h.states c (.unsubscribing id) node d
    by_cases hdc : d = c
    · subst hdc
      rw [if_pos rfl] at hstate
      exact .ended id rfl (by simp [closed]) (State.id?_eq_some_iff.mpr hs) (congrArg State.id? hstate)
    · rw [if_neg hdc] at hstate
      exact .kept rfl (by simp [closed, Ne.symm hdc]) (congrArg State.id? hstate)

theorem turn_move [BatchStore σ] [Node τ] {m : Manager σ τ} (h : m.Agrees) (move : Move) (c : Category) :
    Turn c (m.asked move) (m.state c) ((move.run m).state c) := by
  cases move with
  | subscribe d => exact turn_subscribe h d c
  | unsubscribe d => exact turn_unsubscribe h d c
  | push | refuse | close => exact .kept rfl rfl rfl

/-- For each category one more subscription was opened than closed if it is subscribed, and as many if it
is not. It holds the id that was returned last. -/
structure Booked (asked : List (Category × Request)) (m : Manager σ τ) : Prop where
  balance : ∀ c, (opened c asked).length = closed c asked + (m.state c).id?.toList.length
  latest : ∀ c id, (m.state c).id? = some id → (opened c asked).getLast? = some id

theorem Booked.append {asked later : List (Category × Request)} {m m' : Manager σ τ} (h : Booked asked m)
    (ht : ∀ c, Turn c later (m.state c) (m'.state c)) : Booked (asked ++ later) m' where
  balance c := by
    have hb := h.balance c
    rw [opened_append, closed_append, List.length_append, hb]
    cases ht c with
    | kept ho hc hs => simp [ho, hc, hs]
    | begun id ho hc hs hs' => simp [ho, hc, hs, hs']
    | ended id ho hc hs hs' => simp [ho, hc, hs, hs']
  latest c id hid := by
    rw [opened_append]
    cases ht c with
    | kept ho _ hs => simpa [ho] using h.latest c id (hs ▸ hid)
    | begun id' ho _ _ hs' => simpa [ho] using hs'.symm.trans hid
    | ended _ _ _ _ hs' => simp [hs'] at hid

theorem Booked.after [BatchStore σ] [Node τ] {asked : List (Category × Request)} {m : Manager σ τ}
    (h : Booked asked m) (hm : m.Agrees) (moves : List Move) :
    Booked (asked ++ askedAll moves m) (m.after moves) := by
  induction moves generalizing asked m with
  | nil => simpa [askedAll, Manager.after] using h
  | cons move rest ih =>
    rw [askedAll, ← List.append_assoc]
    exact ih (h.append (turn_move hm move)) (hm.move move)

end Manager

end EventIntake.Subscription
