/-! Waiting times between attempts to subscribe. -/
namespace EventIntake.Subscription.Backoff

/-- Milliseconds before the retry at place `k`, without the random part: they double up to five
seconds. -/
def delay (k : Nat) : Nat := min (100 * Nat.pow 2 k) 5000

/-- One waiting time for each retry. -/
def delays (retries : Nat) : List Nat := (List.range retries).map delay

end EventIntake.Subscription.Backoff
