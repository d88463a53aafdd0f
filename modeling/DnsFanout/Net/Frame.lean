import DnsFanout.Message.Word
import DnsFanout.Net.Fault
import DnsFanout.Scope

/-! Messages on a stream: each is led by its length in two octets. -/

namespace DnsFanout.Net.Frame

def maxSize : Nat := 65535

/-- A message with its length in front; one that is too long is refused. -/
def encode (message : Bytes) : Except Fault Bytes :=
  if maxSize < message.length then .error (.tooLarge message.length)
  else .ok (word16 message.length ++ message)

/-- Writes a message on a stream on which some octets were sent. Of a message that is
too long nothing is written. -/
def send (message sent : Bytes) : Except Fault Unit × Bytes :=
  match encode message with
  | .error cause => (.error cause, sent)
  | .ok framed => (.ok (), sent ++ framed)

/-- The first message of a stream and what follows it; none while octets of it are
missing. -/
def split? : Bytes → Option (Bytes × Bytes)
  | a :: b :: rest =>
    let size := (ofWord16 a b).toNat
    if size ≤ rest.length then some (rest.take size, rest.drop size) else none
  | _ => none

theorem length_of_split? {s message rest : Bytes} (h : split? s = some (message, rest)) :
    rest.length < s.length := by
  unfold split? at h
  split at h
  · simp only [Option.ite_none_right_eq_some, Option.some.injEq, Prod.mk.injEq] at h
    obtain ⟨_, _, rfl⟩ := h
    simp only [List.length_drop, List.length_cons]
    omega
  · cases h

/-- All whole messages of a stream. -/
def splitAll (s : Bytes) : List Bytes :=
  match _h : split? s with
  | none => []
  | some (message, rest) => message :: splitAll rest
termination_by s.length
decreasing_by exact length_of_split? _h

/-! ### Reading from pieces -/

/-- What comes in on a stream until it ends: pieces in order, each with the instant of
its arrival. -/
abbrev Inbound := List (Instant × Bytes)

def Inbound.octets (s : Inbound) : Bytes := s.flatMap Prod.snd

/-- Octets from the front of a stream, the arrival of the last of them, and what is
left. -/
structure Taken where
  bytes : Bytes
  arrival : Instant
  rest : Inbound

/-- Exactly `n` octets from the front of a stream. -/
def take : Nat → Inbound → Except Fault Taken
  | 0, s => .ok ⟨[], 0, s⟩
  | _ + 1, [] => .error .earlyEnd
  | n, (arrival, piece) :: s =>
    if n < piece.length then .ok ⟨piece.take n, arrival, (arrival, piece.drop n) :: s⟩
    else do
      let more ← take (n - piece.length) s
      return ⟨piece ++ more.bytes, max arrival more.arrival, more.rest⟩

/-- One message: its length, then its octets. -/
def read (s : Inbound) : Except Fault Taken := do
  let size ← take 2 s
  let message ← take ((leadingWord? size.bytes).getD 0).toNat size.rest
  return { message with arrival := max size.arrival message.arrival }

/-- What is taken was in front. -/
theorem octets_of_take {n : Nat} {s : Inbound} {t : Taken} (h : take n s = .ok t) :
    t.bytes.length = n ∧ s.octets = t.bytes ++ t.rest.octets := by
  induction s generalizing n t with
  | nil =>
    cases n with
    | zero => cases h; exact ⟨rfl, rfl⟩
    | succ n => cases h
  | cons front s ih =>
    obtain ⟨arrival, piece⟩ := front
    cases n with
    | zero => cases h; exact ⟨rfl, rfl⟩
    | succ n =>
      unfold take at h
      split at h
      · next hn =>
        cases h
        refine ⟨by simp only [List.length_take]; omega, ?_⟩
        simp only [Inbound.octets, List.flatMap_cons, ← List.append_assoc, List.take_append_drop]
      · next hn =>
        cases hmore : take (n + 1 - piece.length) s with
        | error cause => rw [hmore] at h; cases h
        | ok more =>
          rw [hmore] at h
          cases h
          obtain ⟨hlength, hoctets⟩ := ih hmore
          refine ⟨by simp only [List.length_append, hlength]; omega, ?_⟩
          simp only [Inbound.octets, List.flatMap_cons, List.append_assoc] at hoctets ⊢
          rw [hoctets]

theorem length_of_read {s : Inbound} {t : Taken} (h : read s = .ok t) :
    t.rest.octets.length < s.octets.length := by
  unfold read at h
  cases hsize : take 2 s with
  | error cause => rw [hsize] at h; cases h
  | ok size =>
    rw [hsize] at h
    obtain ⟨hlength, hs⟩ := octets_of_take hsize
    cases hmessage : take ((leadingWord? size.bytes).getD 0).toNat size.rest with
    | error cause => simp [bind, Except.bind, hmessage] at h
    | ok message =>
      simp only [bind, Except.bind, hmessage] at h
      cases h
      rw [hs, (octets_of_take hmessage).2]
      simp only [List.length_append, hlength]
      omega

/-- The messages of a stream with their arrivals, and the fault that ends them. -/
structure Reading where
  messages : List (Instant × Bytes)
  fault : Fault

/-- Reads message after message, up to the first that cannot be read. -/
def readAll (s : Inbound) : Reading :=
  match _h : read s with
  | .error cause => ⟨[], cause⟩
  | .ok message =>
    let more := readAll message.rest
    { more with messages := (message.arrival, message.bytes) :: more.messages }
termination_by s.octets.length
decreasing_by exact length_of_read _h

end DnsFanout.Net.Frame
