/-! The order in which the resolvers are asked. -/

namespace DnsFanout

inductive RotationKind
  | random
  | roundRobin
  | sequential
deriving DecidableEq, Repr

def RotationKind.text : RotationKind → String
  | random => "random"
  | roundRobin => "round_robin"
  | sequential => "sequential"

/-- A rotation with its state: the number of calls so far, or the numbers still to
be drawn. -/
inductive Rotation
  | random (draws : Nat → Nat)
  | roundRobin (next : UInt64)
  | sequential

namespace Rotation

def kind : Rotation → RotationKind
  | random _ => .random
  | roundRobin _ => .roundRobin
  | sequential => .sequential

def ofKind (draws : Nat → Nat) : RotationKind → Rotation
  | .random => random draws
  | .roundRobin => roundRobin 0
  | .sequential => sequential

/-- Inserts each element of the list at a drawn place among those after it. -/
def shuffle {α : Type} (draws : Nat → Nat) : List α → List α
  | [] => []
  | x :: xs => (shuffle draws xs).insertIdx (draws xs.length % (xs.length + 1)) x

/-- The order for one query, and the rotation for the next. An empty list leaves
the counter as it is. -/
def arrange {α : Type} (rotation : Rotation) (xs : List α) : List α × Rotation :=
  match rotation with
  | random draws => (shuffle draws xs, random fun i => draws (i + xs.length))
  | roundRobin next =>
    if xs = [] then ([], rotation)
    else
      let start := next.toNat % xs.length
      (xs.drop start ++ xs.take start, roundRobin (next + 1))
  | sequential => (xs, sequential)

end Rotation

end DnsFanout
