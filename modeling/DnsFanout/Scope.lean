import DnsFanout.Failure

/-! The time that a query may take: up to a deadline, and until it is cancelled.
Instants are milliseconds on one clock. -/

namespace DnsFanout

abbrev Instant := Nat

structure Scope where
  deadline : Option Instant := none
  cancelledAt : Option Instant := none
deriving DecidableEq, Repr

namespace Scope

def isCancelled (s : Scope) (now : Instant) : Bool := s.cancelledAt.any (· ≤ now)

def isExpired (s : Scope) (now : Instant) : Bool := s.deadline.any (· ≤ now)

/-- The time left before the deadline. -/
def remaining (s : Scope) (now : Instant) : Option Nat := s.deadline.map (· - now)

/-- A duration, cut to the time that is left. -/
def bound (s : Scope) (now : Instant) (duration : Nat) : Nat :=
  match s.remaining now with
  | some left => min left duration
  | none => duration

/-- The scope is cancelled from now on, if it was not before. -/
def cancel (s : Scope) (now : Instant) : Scope :=
  { s with cancelledAt := some (match s.cancelledAt with
    | some c => min c now
    | none => now) }

/-- When the scope ends. -/
def stop? (s : Scope) : Option Instant :=
  match s.deadline, s.cancelledAt with
  | some d, some c => some (min d c)
  | some d, none => some d
  | none, c => c

/-- Why the scope is over; cancellation is told before the deadline. -/
def verdict? (s : Scope) (now : Instant) : Option Failure :=
  if s.isCancelled now then some .cancelled
  else if s.isExpired now then some .timeout
  else none

/-- Work begun now that completes with a value at an instant, or never, within the
scope. A scope that ends no later than the work wins. -/
def race {α : Type} (s : Scope) (now : Instant) (work : Option (α × Instant)) :
    Option (Except Failure α × Instant) :=
  match s.verdict? now with
  | some f => some (.error f, now)
  | none =>
    let stopped (stop : Instant) : Except Failure α × Instant :=
      (.error ((s.verdict? stop).getD .timeout), stop)
    match s.stop?, work with
    | none, none => none
    | none, some (a, t) => some (.ok a, t)
    | some stop, none => some (stopped stop)
    | some stop, some (a, t) => some (if t < stop then (.ok a, t) else stopped stop)

end Scope

end DnsFanout
