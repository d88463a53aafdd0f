import DnsFanout.Failure
import DnsFanout.Message.Basic

/-! What became of a query at one resolver, and the reply that several outcomes
make together. -/

namespace DnsFanout

inductive Outcome
  | success (reply : Message)
  /-- The resolver answered something that does not belong to the query; the
  message is the format error made for it. -/
  | malformed (reply : Message)
  | failed (cause : Failure)
deriving DecidableEq

namespace Outcome

/-- The address records an outcome contributes. -/
def addresses : Outcome → List Record
  | success reply => reply.addresses
  | _ => []

def failure? : Outcome → Option Failure
  | failed cause => some cause
  | _ => none

/-- The reply of an outcome that contributes addresses. -/
def contribution? : Outcome → Option Message
  | success reply => if reply.addresses = [] then none else some reply
  | _ => none

end Outcome

/-- Merges outcomes: the last reply with addresses carries the addresses of all.
Without any address the first failure is the result. -/
def merge (outcomes : List Outcome) : Except Failure Message :=
  match (outcomes.filterMap Outcome.contribution?).getLast? with
  | some reply => .ok { reply with answers := outcomes.flatMap Outcome.addresses }
  | none => .error ((outcomes.findSome? Outcome.failure?).getD .noHealthyResolver)

end DnsFanout
