import DnsFanout.Net.Datagram

/-! How an exchange over datagrams may end: dropped, with a fault, without a reply, or with the
first datagram that has the number of the query in front. -/

namespace DnsFanout

theorem leadingWord?_take {n : Nat} (h : 2 ≤ n) (bytes : Bytes) :
    leadingWord? (bytes.take n) = leadingWord? bytes := by
  obtain ⟨n, rfl⟩ := Nat.exists_eq_add_of_le' h
  match bytes with
  | [] | [_] | _ :: _ :: _ => rfl

namespace Net.Datagram

/-- The datagram has the number of the query in front. -/
def answers (query bytes : Bytes) : Bool := 2 ≤ bytes.length && bytes.take 2 == query.take 2

theorem answers_iff {query bytes : Bytes} : answers query bytes = true ↔
    (leadingWord? bytes).isSome ∧ leadingWord? bytes = leadingWord? query := by
  match bytes, query with
  | [], _ | [_], _ | _ :: _ :: _, [] | _ :: _ :: _, [_] => simp [answers, leadingWord?]
  | a :: b :: _, c :: d :: _ =>
    have hpair : [a, b] = [c, d] ↔ ofWord16 a b = ofWord16 c d := by
      constructor
      · intro h
        cases h
        rfl
      · intro h
        rw [← word16_ofWord16, h, word16_ofWord16]
    simpa [answers, leadingWord?] using hpair

theorem settles_ok (query bytes : Bytes) : settles query (.ok bytes) = answers query bytes := by
  rw [Bool.eq_iff_iff, answers_iff, settles, Bool.and_eq_true, decide_eq_true_eq]

/-- A datagram answers a query by what of it is kept. -/
theorem answers_take (query bytes : Bytes) :
    answers query (bytes.take maxSize) = answers query bytes := by
  rw [Bool.eq_iff_iff, answers_iff, answers_iff, leadingWord?_take (by decide)]

theorem settles_of_first? {events : List (Instant × Except Fault Bytes)} {used : Nat}
    {arrival : Instant} {event : Except Fault Bytes}
    (h : first? query events = some (used, arrival, event)) : settles query event = true := by
  induction events generalizing used with
  | nil => cases h
  | cons front events ih =>
    rw [first?] at h
    split at h
    · next hsettles =>
      cases h
      exact hsettles
    · obtain ⟨⟨count, found⟩, hfound, h⟩ := Option.map_eq_some_iff.mp h
      cases h
      exact ih hfound

variable {ω : Type} [DatagramNetwork ω] {pool left : Pool Nat} {server : SocketAddress}
  {query : Bytes} {timeout socket : Nat} {stop : Option Instant} {reused : Bool} {now : Instant}
  {network ready : ω}

/-- A socket to ask on: one from the pool, or a new one when the pool has none that is fresh. -/
inductive Ready (pool : Pool Nat) (server : SocketAddress) (now : Instant) (network : ω) :
    Bool → Nat → Pool Nat → ω → Prop
  | pooled {socket : Nat} {left : Pool Nat} (h : pool.checkout server now = (some socket, left)) :
    Ready pool server now network true socket left network
  | opened {socket : Nat} {left : Pool Nat} {network' : ω}
    (h : pool.checkout server now = (none, left))
    (hopen : DatagramNetwork.openSocket server now network = (.ok socket, network')) :
    Ready pool server now network false socket left network'

theorem Ready.run (h : Ready pool server now network reused socket left ready) :
    run pool server query timeout stop now network =
      onSocket left server query timeout stop reused socket now ready := by
  cases h with
  | pooled h => simp only [Datagram.run, h]
  | opened h hopen => simp only [Datagram.run, h, hopen]

theorem Ready.left_eq (h : Ready pool server now network reused socket left ready) :
    left = (pool.checkout server now).2 := by
  cases h with
  | pooled h | opened h hopen => rw [h]

/-- The ends of an exchange. The socket goes back to the pool with a reply only. -/
inductive Ended (pool : Pool Nat) (server : SocketAddress) (query : Bytes) (stop : Option Instant)
    (now : Instant) (network : ω) : Exchanged ω → Prop
  | abandoned {t : Instant} {after : ω} (h : stop.isSome = true) :
    Ended pool server query stop now network ⟨none, t, (pool.checkout server now).2, after⟩
  | failed (cause : Fault) {t : Instant} {after : ω} :
    Ended pool server query stop now network
      ⟨some (.error (cause.failure server)), t, (pool.checkout server now).2, after⟩
  | silent {t : Instant} {after : ω} :
    Ended pool server query stop now network
      ⟨some (.error (.transportTimeout server.text)), t, (pool.checkout server now).2, after⟩
  | answered {reused : Bool} {socket : Nat} {left : Pool Nat} {ready : ω} {bytes : Bytes}
    {t : Instant} {after : ω} (hready : Ready pool server now network reused socket left ready)
    (h : answers query bytes = true) :
    Ended pool server query stop now network
      ⟨some (.ok ⟨bytes, reused⟩), t, left.checkin server t socket, after⟩

theorem ended_await (hready : Ready pool server now network reused socket left ready)
    (timeout : Nat) (stop : Option Instant) (asked : ω) :
    Ended pool server query stop now network
      (await left server query timeout stop reused socket now asked) := by
  have hstopped {t : Instant} (h : stop.any (· ≤ t) = true) : stop.isSome = true :=
    Option.isSome_of_any h
  obtain rfl := hready.left_eq
  unfold await
  extract_lets deadline timely
  rcases hfirst : first? query timely with _ | ⟨used, arrival, cause | bytes⟩
  · dsimp only
    split
    · next hstop => exact .abandoned (hstopped hstop)
    · exact .silent
  · dsimp only
    split
    · next hstop => exact .abandoned (hstopped hstop)
    · exact .failed cause
  · dsimp only
    split
    · next hstop => exact .abandoned (hstopped hstop)
    · have hanswers := settles_of_first? hfirst
      rw [settles_ok, ← answers_take] at hanswers
      exact .answered hready hanswers

theorem ended_onSocket (hready : Ready pool server now network reused socket left ready)
    (timeout : Nat) (stop : Option Instant) :
    Ended pool server query stop now network
      (onSocket left server query timeout stop reused socket now ready) := by
  unfold onSocket
  split
  · rw [hready.left_eq]
    exact .failed _
  · exact ended_await hready timeout stop _

theorem ended_run (pool : Pool Nat) (server : SocketAddress) (query : Bytes) (timeout : Nat)
    (stop : Option Instant) (now : Instant) (network : ω) :
    Ended pool server query stop now network
      (run pool server query timeout stop now network) := by
  unfold run
  split
  · next hpool => exact ended_onSocket (.pooled hpool) timeout stop
  · next left hpool =>
    split
    · rw [show left = (pool.checkout server now).2 by rw [hpool]]
      exact .failed _
    · next hopen => exact ended_onSocket (.opened hpool hopen) timeout stop

end Net.Datagram

end DnsFanout
