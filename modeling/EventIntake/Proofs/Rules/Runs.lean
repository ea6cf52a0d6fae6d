import EventIntake.Proofs.Rules.Balance
import Mathlib.Data.List.DropRight

/-! Rules and their alerts over any run. The rules of an owner are those added since they were last dropped, and
their alerts go through the channel in order, as long as it has room for them. -/
namespace EventIntake.Rules
open Event

/-- What is asked of a book, an event it sees, or what the reader of its alerts does. -/
inductive Call
  | add (owner : String) (r : Rule)
  | remove (owner : String)
  | rulesFor (owner : String)
  | observe (info : Meta) (p : Payload)
  | receive
  /-- The reader takes no more alerts, and reads on. -/
  | shut
  /-- The reader goes away. -/
  | close

inductive Answer
  | done
  | removed (n : Nat)
  | rules (rules : List Rule)
  | observed (result : Except RuleError Unit)
  | received (a : Option Alert)

def Call.run (call : Call) (b : Book) : Answer × Book :=
  match call with
  | add owner r => (.done, b.add owner r)
  | remove owner =>
    let (n, b) := b.remove owner
    (.removed n, b)
  | rulesFor owner => (.rules (b.rulesFor owner), b)
  | observe info p =>
    let (result, b) := b.observe info p
    (.observed result, b)
  | receive =>
    let (a, channel) := b.channel.receive
    (.received a, { b with channel := channel })
  | shut => (.done, { b with channel := b.channel.shut })
  | close => (.done, { b with channel := b.channel.close })

/-- Calls in order, and their answers. -/
def runAll : List Call → Book → List Answer × Book
  | [], b => ([], b)
  | call :: rest, b =>
    let (answer, b) := call.run b
    let (answers, b) := runAll rest b
    (answer :: answers, b)

theorem runAll_concat (calls : List Call) (call : Call) (b : Book) :
    (runAll (calls ++ [call]) b).2 = (call.run (runAll calls b).2).2 := by
  induction calls generalizing b with
  | nil => rfl
  | cons first rest ih => exact ih (first.run b).2

/-! ### The rules of an owner -/

namespace Call

/-- Whether a call drops the rules of an owner in normal form. -/
def drops (a : String) : Call → Bool
  | remove owner => Address.normalize owner = a
  | _ => false

/-- The rule that a call adds for an owner in normal form. -/
def added? (a : String) : Call → Option Rule
  | add owner r => if Address.normalize owner = a then some r else none
  | _ => none

/-- Whether a call is about the rules of an owner in normal form. -/
def about (a : String) (call : Call) : Bool := call.drops a || (call.added? a).isSome

end Call

/-- The rules added for an owner in normal form since they were last dropped. -/
def standing (a : String) (calls : List Call) : List Rule :=
  (calls.rtakeWhile fun call => !call.drops a).filterMap (Call.added? a)

theorem standing_concat (a : String) (calls : List Call) (call : Call) :
    standing a (calls ++ [call]) = if call.drops a then [] else standing a calls ++ (call.added? a).toList := by
  rw [standing, List.rtakeWhile_concat]
  cases hd : call.drops a <;> cases ha : call.added? a <;> simp [standing, ha]

/-- Calls about other owners do not matter. -/
theorem standing_filter (a : String) (calls : List Call) :
    standing a (calls.filter (Call.about a)) = standing a calls := by
  induction calls using List.reverseRecOn with
  | nil => rfl
  | append_singleton calls call ih =>
    rw [standing_concat, List.filter_append]
    cases hcall : call.about a with
    | true =>
      have hkept : [call].filter (Call.about a) = [call] := by simp [hcall]
      rw [hkept, standing_concat, ih]
    | false =>
      have hleft : [call].filter (Call.about a) = [] := by simp [hcall]
      obtain ⟨hdrops, hadded⟩ : call.drops a = false ∧ call.added? a = none := by simpa [Call.about] using hcall
      simp [hleft, hdrops, hadded, ih]

/-! ### The alerts of an event -/

/-- An alert for every rule of its owner that a balance change matches. -/
def Book.raised (info : Meta) (p : Payload) (b : Book) : List Alert :=
  match p with
  | .coinBalanceChange change =>
    match change.owner.bind Owner.address with
    | none => []
    | some a => ((b.rulesFor a).filter fun r => r.Matches change).map (Book.alertOf info a change)
  | _ => []

/-- Those of the alerts that a call raises that there is room for in front of a reader. -/
def Call.sent (call : Call) (b : Book) : List Alert :=
  match call with
  | observe info p =>
    if b.channel.closed then [] else (b.raised info p).take (b.channel.capacity - b.channel.waiting.length)
  | _ => []

def sentAll : List Call → Book → List Alert
  | [], _ => []
  | call :: rest, b => call.sent b ++ sentAll rest (call.run b).2

/-- The alert that was read, if there was one. -/
def Answer.alert? : Answer → Option Alert
  | received a => a
  | _ => none

namespace Book

/-- The outcome of a balance change that matches these rules of its owner: each rule in order puts an alert on the
channel as long as there is room, and the first that finds no room, or no reader, is the fault. -/
def alerted (info : Meta) (change : CoinBalanceChange) (owner : String) (matching : List Rule) (b : Book) :
    Except RuleError Unit × Book :=
  let room := b.channel.capacity - b.channel.waiting.length
  if b.channel.closed then (if matching = [] then .ok () else .error .sinkClosed, b)
  else
    let sent := (matching.take room).map (alertOf info owner change)
    (if h : room < matching.length then .error (.sinkFull matching[room].name) else .ok (),
      { b with channel := { b.channel with waiting := b.channel.waiting ++ sent } })

theorem observe_of_address {change : CoinBalanceChange} {a : String} (h : change.owner.bind Owner.address = some a)
    (info : Meta) (b : Book) :
    b.observe info (.coinBalanceChange change) =
      b.alerted info change a ((b.rulesFor a).filter fun r => r.Matches change) := by
  have hmatching : (b.rulesFor a).filter (fun r => r.applies change) =
      (b.rulesFor a).filter fun r => r.Matches change :=
    List.filter_congr fun r _ => by simp [← r.applies_iff]
  simp only [observe, h, hmatching, alerted]
  cases hc : b.channel.closed with
  | true => simp [offerAll_closed _ hc]
  | false => simp [offerAll_open _ hc rfl, alertOf, List.map_take, hc]

/-- An event changes nothing but what waits to be read. -/
theorem observe_snd (info : Meta) (p : Payload) (b : Book) :
    (b.observe info p).2 =
      { b with channel := { b.channel with waiting := b.channel.waiting ++ (Call.observe info p).sent b } } := by
  have hnothing (h : b.raised info p = []) : (Call.observe info p).sent b = [] := by simp [Call.sent, h]
  cases p with
  | coinBalanceChange change =>
    cases ha : change.owner.bind Owner.address with
    | none =>
      have hraised : b.raised info (.coinBalanceChange change) = [] := by simp only [raised, ha]
      simp [hnothing hraised, observe, ha]
    | some a =>
      rw [observe_of_address ha, alerted]
      cases hc : b.channel.closed with
      | true =>
        have hsent : (Call.observe info (.coinBalanceChange change)).sent b = [] := by simp [Call.sent, hc]
        rw [hsent, List.append_nil]
        rfl
      | false => simp [Call.sent, hc, raised, ha, List.map_take]
  | _ => simp [hnothing rfl, observe]

end Book

namespace Call

theorem length_sent (call : Call) (b : Book) :
    (call.sent b).length ≤ b.channel.capacity - b.channel.waiting.length := by
  cases call with
  | observe info p =>
    rw [sent]
    split
    · exact Nat.zero_le _
    · exact List.length_take_le _ _
  | _ => exact Nat.zero_le _

/-- What a call does to the channel. -/
theorem channel_run (call : Call) (b : Book) :
    (call.run b).2.channel =
      match call with
      | receive => { b.channel with waiting := b.channel.waiting.tail }
      | shut => b.channel.shut
      | close => b.channel.close
      | _ => { b.channel with waiting := b.channel.waiting ++ call.sent b } := by
  cases call with
  | observe info p => rw [run, Book.observe_snd]
  | receive => simp only [run, Channel.receive_eq]
  | shut | close => rfl
  | add | remove | rulesFor => simp [run, sent, Book.add, Book.remove]

theorem capacity_run (call : Call) (b : Book) : (call.run b).2.channel.capacity = b.channel.capacity := by
  rw [channel_run]
  cases call <;> rfl

/-- Whether a call is the last of the reader's in which new alerts could have come. -/
def closes : Call → Bool
  | shut | close => true
  | _ => false

theorem closed_run (call : Call) (b : Book) :
    (call.run b).2.channel.closed = (b.channel.closed || call.closes) := by
  rw [channel_run]
  cases call <;> simp [closes, Channel.shut, Channel.close]

theorem sound_run {b : Book} (hs : b.Sound) (call : Call) : (call.run b).2.Sound := by
  obtain ⟨hascending, hfits⟩ := hs
  refine ⟨?_, ?_⟩
  · cases call with
    | add owner r => exact hascending.insert _ _
    | remove owner => exact hascending.erase _
    | observe info p => rwa [run, Book.observe_snd]
    | _ => exact hascending
  · have hsent := call.length_sent b
    rw [channel_run]
    cases call with
    | receive => exact (List.length_tail ▸ Nat.sub_le _ _).trans hfits
    | shut => exact hfits
    | close => exact Nat.zero_le _
    | _ =>
      simp only [List.length_append]
      omega

/-- What is read, and then what waits, is what waited and then what was sent. -/
theorem fifo_run (call : Call) (b : Book) (h : call ≠ close) :
    (call.run b).1.alert?.toList ++ (call.run b).2.channel.waiting = b.channel.waiting ++ call.sent b := by
  rw [channel_run]
  cases call with
  | receive => cases hw : b.channel.waiting <;> simp [run, Channel.receive_eq, Answer.alert?, sent, hw]
  | shut => simp [run, Channel.shut, Answer.alert?, sent]
  | close => exact (h rfl).elim
  | _ => rfl

theorem rulesFor_run {b : Book} (hs : b.Sound) (call : Call) (o : String) :
    (call.run b).2.rulesFor o =
      if call.drops (Address.normalize o) then []
      else b.rulesFor o ++ (call.added? (Address.normalize o)).toList := by
  cases call with
  | add owner r =>
    rw [run, Book.rulesFor_add]
    by_cases h : Address.normalize o = Address.normalize owner <;> simp [drops, added?, h, eq_comm]
  | remove owner =>
    rw [run, Book.rulesFor_remove hs]
    by_cases h : Address.normalize o = Address.normalize owner <;> simp [drops, added?, h, eq_comm]
  | observe info p =>
    rw [run, Book.observe_snd]
    exact (List.append_nil _).symm
  | _ => exact (List.append_nil _).symm

end Call

/-! ### Runs -/

def Book.new (capacity : Nat) : Book := { channel := { capacity := capacity } }

theorem Book.sound_new (capacity : Nat) : (new capacity).Sound := ⟨.nil, Nat.zero_le _⟩

theorem sound_runAll (calls : List Call) {b : Book} (hs : b.Sound) : (runAll calls b).2.Sound := by
  induction calls generalizing b with
  | nil => exact hs
  | cons call rest ih => exact ih (call.sound_run hs)

theorem capacity_runAll (calls : List Call) (b : Book) : (runAll calls b).2.channel.capacity = b.channel.capacity := by
  induction calls generalizing b with
  | nil => rfl
  | cons call rest ih => exact (ih _).trans (call.capacity_run b)

theorem closed_runAll (calls : List Call) (b : Book) :
    (runAll calls b).2.channel.closed = (b.channel.closed || calls.any Call.closes) := by
  induction calls generalizing b with
  | nil => simp [runAll]
  | cons call rest ih =>
    have hrest : (runAll (call :: rest) b).2.channel.closed = _ := ih (call.run b).2
    rw [hrest, call.closed_run, List.any_cons, Bool.or_assoc]

/-- The rules of an owner after any run. -/
theorem rulesFor_runAll (capacity : Nat) (calls : List Call) (o : String) :
    (runAll calls (Book.new capacity)).2.rulesFor o = standing (Address.normalize o) calls := by
  induction calls using List.reverseRecOn with
  | nil => rfl
  | append_singleton calls call ih =>
    have hs := sound_runAll calls (Book.sound_new capacity)
    rw [runAll_concat, call.rulesFor_run hs, ih, standing_concat]

theorem sentAll_closed (calls : List Call) {b : Book} (h : b.channel.closed = true) : sentAll calls b = [] := by
  induction calls generalizing b with
  | nil => rfl
  | cons call rest ih =>
    have hnext : (call.run b).2.channel.closed = true := by rw [call.closed_run, h, Bool.true_or]
    have hsent : call.sent b = [] := by cases call <;> simp [Call.sent, h]
    rw [sentAll, hsent, ih hnext, List.append_nil]

/-- Alerts are read in the order in which they were sent. -/
theorem fifo_runAll (calls : List Call) (b : Book) :
    let received := (runAll calls b).1.filterMap Answer.alert?
    let waiting := (runAll calls b).2.channel.waiting
    received ++ waiting <+: b.channel.waiting ++ sentAll calls b ∧
      (.close ∉ calls → received ++ waiting = b.channel.waiting ++ sentAll calls b) := by
  intro received waiting
  induction calls generalizing b with
  | nil => simp [received, waiting, runAll, sentAll]
  | cons call rest ih =>
    obtain ⟨hbefore, hsame⟩ := ih (call.run b).2
    have hreceived : received ++ waiting = (call.run b).1.alert?.toList ++
        ((runAll rest (call.run b).2).1.filterMap Answer.alert? ++ (runAll rest (call.run b).2).2.channel.waiting) := by
      simp only [received, waiting, runAll, List.filterMap_cons]
      cases (call.run b).1.alert? <;> rfl
    rw [hreceived]
    by_cases hclose : call = .close
    · -- What waits is lost here, and nothing is sent from now on.
      subst hclose
      have hnothing := sentAll_closed rest (b := (Call.close.run b).2) rfl
      rw [hnothing] at hbefore
      have hnil := List.prefix_nil.mp hbefore
      rw [hnil]
      exact ⟨List.nil_prefix, fun h => (h (.head _)).elim⟩
    · have hsent : b.channel.waiting ++ sentAll (call :: rest) b =
          (call.run b).1.alert?.toList ++ ((call.run b).2.channel.waiting ++ sentAll rest (call.run b).2) := by
        rw [sentAll, ← List.append_assoc, ← call.fifo_run b hclose, List.append_assoc]
      rw [hsent]
      refine ⟨(List.prefix_append_right_inj _).mpr hbefore, fun h => ?_⟩
      rw [hsame fun hrest => h (.tail _ hrest)]

/-- Rules by owner and their alerts, for any room in the channel and any run. The rules of an owner are those added
since they were last dropped, in order and under any spelling of the owner, and calls about other owners do not
matter. No more alerts wait than there is room for, and they are read in the order in which they were sent. A
balance change of an owner with an address has the outcome of the rules of the owner that it matches. -/
theorem alerts_by_standing_rules (capacity : Nat) (calls : List Call) :
    let (answers, b) := runAll calls (Book.new capacity)
    let received := answers.filterMap Answer.alert?
    let sent := sentAll calls (Book.new capacity)
    (∀ o, let rules := standing (Address.normalize o) calls
      (Call.rulesFor o).run b = (.rules rules, b) ∧ ((Call.remove o).run b).1 = .removed rules.length) ∧
    (∀ o later, let a := Address.normalize o
      later.filter (Call.about a) = calls.filter (Call.about a) →
        (runAll later (Book.new capacity)).2.rulesFor o = b.rulesFor o) ∧
    (b.channel.capacity = capacity ∧ b.channel.waiting.length ≤ capacity ∧
      b.channel.closed = calls.any Call.closes ∧
      received ++ b.channel.waiting <+: sent ∧ (.close ∉ calls → received ++ b.channel.waiting = sent)) ∧
    ∀ info p, b.observe info p =
      match p with
      | .coinBalanceChange change =>
        match change.owner.bind Owner.address with
        | none => (.error (.missingOwner info.txDigest info.eventSeq), b)
        | some a => b.alerted info change a ((standing a calls).filter fun r => r.Matches change)
      | _ => (.ok (), b) := by
  have hs := sound_runAll calls (Book.sound_new capacity)
  have hcapacity : (runAll calls (Book.new capacity)).2.channel.capacity = capacity := capacity_runAll calls _
  have hclosed := closed_runAll calls (Book.new capacity)
  have hfifo := fifo_runAll calls (Book.new capacity)
  have hrules := rulesFor_runAll capacity calls
  generalize runAll calls (Book.new capacity) = reached at *
  obtain ⟨answers, b⟩ := reached
  dsimp only at *
  refine ⟨fun o => ?_, fun o later hsame => ?_, ⟨hcapacity, ?_, ?_, hfifo⟩, fun info p => ?_⟩
  · simp only [Call.run, Book.remove, hrules, and_self]
  · rw [rulesFor_runAll, hrules, ← standing_filter, hsame, standing_filter]
  · exact hcapacity ▸ hs.fits
  · exact hclosed.trans (Bool.false_or _)
  · cases p with
    | coinBalanceChange change =>
      cases ha : change.owner.bind Owner.address with
      | none => simp only [Book.observe, ha]
      | some a =>
        have hnormal : Address.normalize a = a := by
          obtain ⟨owner, _, howner⟩ := Option.bind_eq_some_iff.mp ha
          exact Owner.normalize_address howner
        simp only [ha, Book.observe_of_address ha, hrules, hnormal]
    | _ => rfl

/-- Two spellings of one owner, the room for a single alert, and the least amount there is. -/
theorem two_rules_one_alert :
    let change : CoinBalanceChange :=
      { packageId := "0x2", transactionModule := "pay", sender := "0x1", changeType := .pay,
        owner := some (.owned { addressOwner := some "0xbb", objectOwner := some "0xAA" }),
        coinType := "0x2::sui::SUI", coinObjectId := "0x9", version := 1, amount := .minValue }
    let info : Meta := ⟨100, "digest", 1⟩
    let rest : List Call := [.add "0x0aa" { name := "large", minAmount := some 9223372036854775808 },
      .observe info (.coinBalanceChange change)]
    let calls := .add "0xaa" { name := "any" } :: .add "0xbb" { name := "address" } :: rest
    let later := .add "0xaa" { name := "any" } :: rest
    let book := runAll calls (Book.new 1)
    let a := Address.normalize "0xAA"
    later.filter (Call.about a) = calls.filter (Call.about a) ∧
      (runAll later (Book.new 1)).2.rulesFor "0xAA" = book.2.rulesFor "0xAA" ∧
      .close ∉ calls ∧
      book.1.filterMap Answer.alert? ++ book.2.channel.waiting = sentAll calls (Book.new 1) ∧
      sentAll calls (Book.new 1) = [Book.alertOf info a change { name := "any" }] := by
  intro change info rest calls later book a
  have hsame : later.filter (Call.about a) = calls.filter (Call.about a) := rfl
  have hclose : Call.close ∉ calls := by simp [calls, rest]
  obtain ⟨-, hothers, ⟨-, -, -, -, hfifo⟩, -⟩ := alerts_by_standing_rules 1 calls
  exact ⟨hsame, hothers "0xAA" later hsame, hclose, hfifo hclose, rfl⟩

end EventIntake.Rules
