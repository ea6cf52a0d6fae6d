import EventIntake.Proofs.Subscription.Lifecycle

/-! Whatever a manager is asked to do, it does by a few simple moves. -/
namespace EventIntake.Subscription
open Event

inductive Move
  | subscribe (c : Category)
  | unsubscribe (c : Category)
  | push (id : SubscriptionId) (raw : String)
  /-- From now on no subscription is opened. -/
  | refuse
  /-- Routing stops, and what is buffered is stored. -/
  | close
  deriving DecidableEq, Repr

variable {σ τ : Type} [BatchStore σ] [Node τ]

def Move.run (move : Move) (m : Manager σ τ) : Manager σ τ :=
  match move with
  | subscribe c => (m.subscribe c).2
  | unsubscribe c => (m.unsubscribe c).2
  | push id raw => (m.push id raw).2
  | refuse => { m with shutDown := true }
  | close => { m with registry := m.registry.close, intake := m.intake.drain.2, shutDown := true }

namespace Manager

/-- A manager after moves in order. -/
def after (moves : List Move) (m : Manager σ τ) : Manager σ τ :=
  moves.foldl (fun m move => move.run m) m

/-- One move for each attempt to open a subscription. -/
def retryMoves (c : Category) : Nat → Manager σ τ → List Move
  | 0, _ => [.subscribe c]
  | retries + 1, m =>
    .subscribe c :: match m.subscribe c with
      | (.error e, m) => if e.retryable then retryMoves c retries m else []
      | (.ok _, _) => []

def subscribeAllMoves (retries : Nat) : List Category → Manager σ τ → List Move
  | [], _ => []
  | c :: rest, m =>
    m.retryMoves c retries ++ match m.subscribeWithRetry c retries with
      | (.error _, _) => []
      | (.ok _, m) => subscribeAllMoves retries rest m

def shutdownMoves (m : Manager σ τ) : List Move :=
  if m.shutDown then []
  else .refuse :: (m.states.map fun s => .unsubscribe s.1) ++ [.close]

theorem after_append (moves rest : List Move) (m : Manager σ τ) :
    m.after (moves ++ rest) = (m.after moves).after rest :=
  List.foldl_append

theorem after_cons (move : Move) (rest : List Move) (m : Manager σ τ) :
    m.after (move :: rest) = (move.run m).after rest :=
  rfl

theorem subscribeWithRetry_snd (c : Category) (retries : Nat) (m : Manager σ τ) :
    (m.subscribeWithRetry c retries).2 = m.after (m.retryMoves c retries) := by
  induction retries generalizing m with
  | zero => rfl
  | succ retries ih =>
    simp only [subscribeWithRetry, retryMoves, after_cons, Move.run]
    rcases m.subscribe c with ⟨e | id, m'⟩
    · dsimp only
      split
      · exact ih m'
      · rfl
    · rfl

theorem subscribeAll_snd (retries : Nat) (categories : List Category) (m : Manager σ τ) :
    (m.subscribeAll retries categories).2 = m.after (m.subscribeAllMoves retries categories) := by
  induction categories generalizing m with
  | nil => rfl
  | cons c rest ih =>
    simp only [subscribeAll, subscribeAllMoves]
    rw [after_append, ← subscribeWithRetry_snd]
    rcases m.subscribeWithRetry c retries with ⟨e | id, m'⟩
    · rfl
    · exact ih m'

theorem unsubscribeAll_snd (categories : List Category) (m : Manager σ τ) :
    (m.unsubscribeAll categories).2 = m.after (categories.map .unsubscribe) := by
  induction categories generalizing m with
  | nil => rfl
  | cons c rest ih =>
    simp only [unsubscribeAll, List.map_cons, after_cons, Move.run]
    rcases m.unsubscribe c with ⟨e | _, m'⟩
    · exact ih m'
    · exact ih m'

theorem shutDown_unsubscribe (c : Category) (m : Manager σ τ) :
    (m.unsubscribe c).2.shutDown = m.shutDown := by
  generalize hr : (m.unsubscribe c).1 = result, hm : (m.unsubscribe c).2 = m'
  have h := unsubscribed c m
  rw [hr, hm] at h
  cases h <;> rfl

theorem shutDown_unsubscribeAll (categories : List Category) (m : Manager σ τ) :
    (m.unsubscribeAll categories).2.shutDown = m.shutDown := by
  rw [unsubscribeAll_snd]
  induction categories generalizing m with
  | nil => rfl
  | cons c rest ih => exact (ih _).trans (m.shutDown_unsubscribe c)

theorem shutdown_snd_eq_after (m : Manager σ τ) : m.shutdown.2 = m.after m.shutdownMoves := by
  rw [shutdown_snd, shutdownMoves]
  split
  · rfl
  · have hm : m.after (.refuse :: m.states.map fun s => .unsubscribe s.1) =
        ({ m with shutDown := true }.unsubscribeAll (m.states.map Prod.fst)).2 := by
      rw [unsubscribeAll_snd, List.map_map]
      rfl
    have hs : (m.after (.refuse :: m.states.map fun s => .unsubscribe s.1)).shutDown = true := by
      rw [hm, shutDown_unsubscribeAll]
    rw [after_append, ← hm]
    generalize m.after (.refuse :: m.states.map fun s => .unsubscribe s.1) = closing at hs
    cases closing
    cases hs
    rfl

end Manager

end EventIntake.Subscription
