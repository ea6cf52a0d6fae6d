import EventIntake.Proofs.Event.Address
import EventIntake.Proofs.Sorted
import EventIntake.Rules.Balance
import Mathlib.Algebra.Order.Group.Unbundled.Int

/-! What rules match, whose they are, and how far their alerts get. -/
namespace EventIntake.Rules
open Event

/-! ### Conditions -/

/-- A rule asks for nothing that a balance change does not have. -/
structure Rule.Matches (r : Rule) (change : CoinBalanceChange) : Prop where
  changeType : ∀ t ∈ r.changeType, change.changeType = t
  transactionModule : ∀ m ∈ r.transactionModule, change.transactionModule = m
  coinType : ∀ c ∈ r.coinType, change.coinType = c
  minAmount : ∀ least ∈ r.minAmount, (least.toNat : Int) ≤ |change.amount.toInt|

theorem Rule.allows_iff {α : Type} [DecidableEq α] (wanted : Option α) (a : α) :
    Rule.allows wanted a = true ↔ ∀ w ∈ wanted, a = w := by
  cases wanted <;> simp [Rule.allows, eq_comm]

theorem Rule.applies_iff (r : Rule) (change : CoinBalanceChange) : r.applies change = true ↔ r.Matches change := by
  obtain ⟨name, changeType, transactionModule, coinType, minAmount⟩ := r
  have hamount (least : UInt64) :
      least.toNat ≤ change.amount.toInt.natAbs ↔ (least.toNat : Int) ≤ |change.amount.toInt| := by
    rw [Int.abs_eq_natAbs, Int.ofNat_le]
  simp only [applies, Bool.and_eq_true, allows_iff]
  refine ⟨fun ⟨⟨⟨ht, hm⟩, hc⟩, hl⟩ => ⟨ht, hm, hc, ?_⟩, fun ⟨ht, hm, hc, hl⟩ => ⟨⟨⟨ht, hm⟩, hc⟩, ?_⟩⟩
  · cases minAmount with
    | none => simp
    | some least => simpa [hamount] using hl
  · cases minAmount with
    | none => rfl
    | some least => simpa [hamount] using hl

instance (r : Rule) (change : CoinBalanceChange) : Decidable (r.Matches change) :=
  decidable_of_iff _ (r.applies_iff change)

/-! ### Alerts on their way -/

theorem Channel.receive_eq (c : Channel) : c.receive = (c.waiting.head?, { c with waiting := c.waiting.tail }) := by
  obtain ⟨capacity, waiting, closed⟩ := c
  cases waiting <;> rfl

namespace Book

theorem offerAll_closed (alerts : List Alert) {c : Channel} (h : c.closed = true) :
    offerAll alerts c = (if alerts = [] then .ok () else .error .sinkClosed, c) := by
  cases alerts with
  | nil => rfl
  | cons a rest => simp [offerAll, Channel.offer, h]

/-- An open channel takes the alerts that there is room for, and the first that there is none for is the fault. -/
theorem offerAll_open (alerts : List Alert) {c : Channel} (h : c.closed = false) {room : Nat}
    (hroom : c.capacity - c.waiting.length = room) :
    offerAll alerts c =
      (if hlt : room < alerts.length then .error (.sinkFull alerts[room].rule) else .ok (),
        { c with waiting := c.waiting ++ alerts.take room }) := by
  induction alerts generalizing c room with
  | nil => simp [offerAll]
  | cons a rest ih =>
    cases room with
    | zero =>
      have hoffer : c.offer a = (.full, c) := by
        simp [Channel.offer, h, Nat.sub_eq_zero_iff_le.mp hroom]
      simp [offerAll, hoffer]
    | succ room =>
      have hoffer : c.offer a = (.sent, { c with waiting := c.waiting ++ [a] }) := by
        rw [Channel.offer, h, if_neg Bool.false_ne_true, if_pos (by omega)]
      have hrest : c.capacity - (c.waiting ++ [a]).length = room := by
        rw [List.length_append, List.length_singleton]
        omega
      simp [offerAll, hoffer, ih (c := { c with waiting := c.waiting ++ [a] }) h hrest]

/-! ### Owners -/

/-- Owners come in order, and the channel holds no more than it has room for. -/
structure Sound (b : Book) : Prop where
  ascending : Sorted.Ascending b.byOwner
  fits : b.channel.waiting.length ≤ b.channel.capacity

theorem rulesFor_add (o owner : String) (r : Rule) (b : Book) :
    (b.add owner r).rulesFor o =
      if Address.normalize o = Address.normalize owner then b.rulesFor o ++ [r] else b.rulesFor o := by
  simp only [add, rulesFor, Sorted.find?_insert]
  split
  · rename_i h
    simp [h]
  · rfl

theorem rulesFor_remove {b : Book} (hs : b.Sound) (o owner : String) :
    (b.remove owner).2.rulesFor o =
      if Address.normalize o = Address.normalize owner then [] else b.rulesFor o := by
  simp only [remove, rulesFor, hs.ascending.find?_erase]
  split <;> rfl

end Book

end EventIntake.Rules
