import DnsFanout.Net.Address
import DnsFanout.Scope

/-! Idle connections, kept for the next exchange with the same server. -/

namespace DnsFanout.Net

/-- A connection and the instant since which it has been idle. -/
structure Idle (σ : Type) where
  stream : σ
  since : Instant
deriving DecidableEq

/-- The idle connections of each server, the one put back last in front. -/
structure Pool (σ : Type) where
  /-- Milliseconds for which an idle connection may be used again. -/
  expire : Nat
  idle : SocketAddress → List (Idle σ) := fun _ => []

namespace Pool

variable {σ : Type}

/-- The idle connections that are kept for one server. -/
def capacity : Nat := 2

def set (p : Pool σ) (server : SocketAddress) (connections : List (Idle σ)) : Pool σ :=
  { p with idle := fun s => if s = server then connections else p.idle s }

def isFresh (p : Pool σ) (now : Instant) (c : Idle σ) : Bool := now - c.since < p.expire

/-- Takes the connection put back last out of the pool; those that have expired are
dropped on the way. -/
def checkout (p : Pool σ) (server : SocketAddress) (now : Instant) : Option σ × Pool σ :=
  match (p.idle server).dropWhile fun c => !p.isFresh now c with
  | [] => (none, p.set server [])
  | c :: rest => (some c.stream, p.set server rest)

/-- Keeps a connection, if connections are kept at all and the server has not enough
of them. -/
def checkin (p : Pool σ) (server : SocketAddress) (now : Instant) (stream : σ) : Pool σ :=
  if p.expire ≠ 0 ∧ (p.idle server).length < capacity then
    p.set server (⟨stream, now⟩ :: p.idle server)
  else p

def clear (p : Pool σ) : Pool σ := { p with idle := fun _ => [] }

def idleCount (p : Pool σ) (server : SocketAddress) : Nat := (p.idle server).length

end Pool

end DnsFanout.Net
