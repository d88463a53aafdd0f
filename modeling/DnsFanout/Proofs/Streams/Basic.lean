import DnsFanout.Net.Dial
import Mathlib.Logic.Relation

/-! Any number of exchanges over the streams of one server, at once and step by step. An
exchange waits whenever it opens a stream, writes to it or reads from it; meanwhile others go
on, and it may be dropped. -/

namespace DnsFanout.Net

inductive DialFailure
  | connecting (cause : StreamFailure)
  | securing (cause : StreamFailure)
  | naming (name : String)

namespace DialFailure

def failure (server : SocketAddress) : DialFailure → Failure
  | connecting cause => Exchange.failure server false cause
  | securing cause => Dial.handshakeFailure server cause
  | naming name => .configuration ("Invalid TLS server name '" ++ name ++ "': invalid dns name")

end DialFailure

/-- The octets that are still to be read before it is known what follows: the length of a frame
first, then its content. -/
def Frame.missing : Bytes → Nat
  | [] => 2
  | [_] => 1
  | a :: b :: content => (ofWord16 a b).toNat - content.length

def Pool.streams (p : Pool Nat) (server : SocketAddress) : List Nat :=
  (p.idle server).map Idle.stream

namespace Streams

/-- What an exchange does with a stream. -/
inductive Deed
  | opened
  /-- The stream was taken out of the pool. -/
  | taken
  | wrote (bytes : Bytes)
  | heard (bytes : Bytes)
  /-- The exchange was whole, and the stream was put back. -/
  | kept
  /-- The exchange failed, ran out of time or was dropped, and the stream with it. -/
  | lost
deriving DecidableEq

namespace Deed

def isLast : Deed → Bool
  | kept | lost => true
  | _ => false

def sent : Deed → Bytes
  | wrote bytes => bytes
  | _ => []

def got : Deed → Bytes
  | heard bytes => bytes
  | _ => []

end Deed

structure Entry where
  exchange : Nat
  stream : Nat
  deed : Deed
deriving DecidableEq

/-- Where an exchange stands, with the octets of the frame at hand; its result is none when it
was dropped. -/
inductive Stage
  | ready
  | dialing
  | writing (stream : Nat) (reused : Bool) (sent : Bytes)
  | reading (stream : Nat) (reused : Bool) (got : Bytes)
  | done (result : Option (Except Failure Reply))

namespace Stage

/-- The stream that the exchange has, and whether it comes from the pool. -/
def held? : Stage → Option (Nat × Bool)
  | writing n reused _ | reading n reused _ => some (n, reused)
  | _ => none

def stream? (stage : Stage) : Option Nat := stage.held?.map Prod.fst

end Stage

/-- One step of an exchange: the stage and the pool before it, what it does with a stream, and
stage and pool after it. What the peer does and when is left open. -/
inductive Move (server : SocketAddress) (query : Bytes) (fresh : Nat → Prop) :
    Stage → Pool Nat → Option (Nat × Deed) → Stage → Pool Nat → Prop
  | take {pool pool' : Pool Nat} {n : Nat} (now : Instant)
    (h : pool.checkout server now = (some n, pool')) :
    Move server query fresh .ready pool (some (n, .taken)) (.writing n true []) pool'
  | dial {pool pool' : Pool Nat} (now : Instant) (h : pool.checkout server now = (none, pool')) :
    Move server query fresh .ready pool none .dialing pool'
  | connect {pool : Pool Nat} {n : Nat} (h : fresh n) :
    Move server query fresh .dialing pool (some (n, .opened)) (.writing n false []) pool
  | refuse {pool : Pool Nat} (cause : DialFailure) :
    Move server query fresh .dialing pool none (.done (some (.error (cause.failure server)))) pool
  | write {pool : Pool Nat} {n : Nat} {reused : Bool} {sent framed : Bytes} (bytes : Bytes)
    (hquery : Frame.encode query = .ok framed) (h : sent ++ bytes <+: framed) :
    Move server query fresh (.writing n reused sent) pool (some (n, .wrote bytes))
      (.writing n reused (sent ++ bytes)) pool
  | flush {pool : Pool Nat} {n : Nat} {reused : Bool} {sent : Bytes}
    (hquery : Frame.encode query = .ok sent) :
    Move server query fresh (.writing n reused sent) pool none (.reading n reused []) pool
  | hear {pool : Pool Nat} {n : Nat} {reused : Bool} {got : Bytes} (bytes : Bytes)
    (h : bytes.length ≤ Frame.missing got) :
    Move server query fresh (.reading n reused got) pool (some (n, .heard bytes))
      (.reading n reused (got ++ bytes)) pool
  | finish {pool : Pool Nat} {n : Nat} {reused : Bool} {got reply : Bytes} (now : Instant)
    (h : Frame.split? got = some (reply, [])) :
    Move server query fresh (.reading n reused got) pool (some (n, .kept))
      (.done (some (.ok ⟨reply, reused⟩))) (pool.checkin server now n)
  | fail {stage : Stage} {pool : Pool Nat} {n : Nat} {reused : Bool} (cause : StreamFailure)
    (h : stage.held? = some (n, reused)) :
    Move server query fresh stage pool (some (n, .lost))
      (.done (some (.error (Exchange.failure server reused cause)))) pool
  | drop {stage : Stage} {pool : Pool Nat} {n : Nat} {reused : Bool}
    (h : stage.held? = some (n, reused)) :
    Move server query fresh stage pool (some (n, .lost)) (.done none) pool
  | leave {stage : Stage} {pool : Pool Nat} (h : stage = .ready ∨ stage = .dialing) :
    Move server query fresh stage pool none (.done none) pool

/-- The pool, all exchanges by their numbers, and what was done with streams so far. -/
structure State where
  pool : Pool Nat
  stage : Nat → Stage
  history : List Entry

namespace State

def start (expire : Nat) : State := ⟨{ expire }, fun _ => .ready, []⟩

def uses (s : State) (n : Nat) : List Entry := s.history.filter (·.stream = n)

def last? (s : State) (n : Nat) : Option Entry := (s.uses n).getLast?

def deeds (s : State) (k : Nat) : List Entry := s.history.filter (·.exchange = k)

def after (s : State) (k : Nat) (deed : Option (Nat × Deed)) (stage : Stage) (pool : Pool Nat) :
    State where
  pool := pool
  stage j := if j = k then stage else s.stage j
  history := s.history ++ deed.toList.map fun d => ⟨k, d.1, d.2⟩

end State

/-- One exchange makes a step, or all idle streams are closed. A stream that is opened is one
that was not there before. -/
inductive Step (server : SocketAddress) (queries : Nat → Bytes) : State → State → Prop
  | move {s : State} {k : Nat} {deed : Option (Nat × Deed)} {stage : Stage} {pool : Pool Nat}
    (h : Move server (queries k) (fun n => s.uses n = []) (s.stage k) s.pool deed stage pool) :
    Step server queries s (s.after k deed stage pool)
  | clear (s : State) : Step server queries s { s with pool := s.pool.clear }

abbrev Run (server : SocketAddress) (queries : Nat → Bytes) : State → State → Prop :=
  Relation.ReflTransGen (Step server queries)

/-! ### After a step -/

namespace State

variable (s : State) (k : Nat) (stage : Stage) (pool : Pool Nat)

@[simp] theorem pool_after (deed : Option (Nat × Deed)) : (s.after k deed stage pool).pool = pool :=
  rfl

@[simp] theorem stage_after (deed : Option (Nat × Deed)) :
    (s.after k deed stage pool).stage k = stage := if_pos rfl

theorem stage_after_other {j : Nat} (h : j ≠ k) (deed : Option (Nat × Deed)) :
    (s.after k deed stage pool).stage j = s.stage j := if_neg h

@[simp] theorem uses_after_none (n : Nat) : (s.after k none stage pool).uses n = s.uses n := by
  simp [uses, after]

theorem uses_after_self (n : Nat) (d : Deed) :
    (s.after k (some (n, d)) stage pool).uses n = s.uses n ++ [⟨k, n, d⟩] := by
  simp [uses, after]

theorem uses_after_other {n m : Nat} (h : n ≠ m) (d : Deed) :
    (s.after k (some (n, d)) stage pool).uses m = s.uses m := by
  simp [uses, after, h]

@[simp] theorem last?_after_none (n : Nat) : (s.after k none stage pool).last? n = s.last? n := by
  rw [last?, uses_after_none, last?]

theorem last?_after_self (n : Nat) (d : Deed) :
    (s.after k (some (n, d)) stage pool).last? n = some ⟨k, n, d⟩ := by
  rw [last?, uses_after_self, List.getLast?_concat]

theorem last?_after_other {n m : Nat} (h : n ≠ m) (d : Deed) :
    (s.after k (some (n, d)) stage pool).last? m = s.last? m := by
  rw [last?, uses_after_other s k stage pool h, last?]

@[simp] theorem deeds_after (deed : Option (Nat × Deed)) : (s.after k deed stage pool).deeds k =
    s.deeds k ++ deed.toList.map fun d => ⟨k, d.1, d.2⟩ := by
  cases deed <;> simp [deeds, after]

theorem deeds_after_other {j : Nat} (h : j ≠ k) (deed : Option (Nat × Deed)) :
    (s.after k deed stage pool).deeds j = s.deeds j := by
  cases deed <;> simp [deeds, after, Ne.symm h]

end State

end Streams

end DnsFanout.Net
