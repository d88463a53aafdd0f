import DnsFanout.Net.Unreachable
import DnsFanout.Proofs.Datagrams
import DnsFanout.Proofs.Pool
import DnsFanout.Proofs.Streams.Completion
import DnsFanout.Proofs.Streams.Tale
import DnsFanout.Proofs.Worker.Observe
import DnsFanout.Proofs.Worker.Round
import DnsFanout.Proxy

/-! Connections that the peer has closed while they were idle. A server has fewer of them than a
worker gets for nothing, also when a truncated reply puts one more back, so none is ever charged;
the attempt after them opens a connection of its own. -/

namespace DnsFanout

open Net

/-- What an exchange does with the idle connections to its server; `closed` says that it found
its own one closed. -/
structure Net.Pool.Draws (server : SocketAddress) (pool pool' : Pool Nat) (closed : Prop) :
    Prop where
  arises : pool.Arises → pool'.Arises
  idle_le : pool'.idleCount server ≤ max (pool.idleCount server) 1
  spent : closed → pool'.idleCount server < pool.idleCount server

namespace Net

variable {server : SocketAddress} {pool : Pool Nat} {closed closed' : Prop} {now : Instant}

theorem Pool.Draws.refl (server : SocketAddress) (pool : Pool Nat) (h : ¬closed) :
    pool.Draws server pool closed :=
  ⟨id, Nat.le_max_left _ _, fun hclosed => absurd hclosed h⟩

theorem Pool.Draws.imp {pool' : Pool Nat} (h : Pool.Draws server pool pool' closed)
    (himp : closed' → closed) : Pool.Draws server pool pool' closed' :=
  ⟨h.arises, h.idle_le, h.spent ∘ himp⟩

variable {ω : Type}

theorem Exchange.pool_onStream [StreamNetwork ω] (pool : Pool Nat) (server : SocketAddress)
    (query : Bytes) (timeout : Nat) (stop : Option Instant) (reused : Bool) (stream : Nat)
    (now : Instant) (network : ω) :
    let done := onStream pool server query timeout stop reused stream now network
    (done.pool = pool ∧ (∀ reply, done.result ≠ some (.ok reply)) ∧
      (done.result = some (.error .closedConnection) → reused = true)) ∨
    ∃ t bytes, done.pool = pool.checkin server t stream ∧
      done.result = some (.ok ⟨bytes, reused⟩) := by
  intro done
  have hfailed (cause : StreamFailure)
      (h : some (.error (failure server reused cause)) =
        (some (.error .closedConnection) : Option (Except Failure Reply))) : reused = true :=
    reused_of_failure (Except.error.inj (Option.some.inj h))
  cases hquery : Frame.encode query with
  | error cause =>
    have hdone : done = ⟨some (.error (failure server reused (.fault cause))), now, pool,
        StreamNetwork.drop stream now network⟩ := by
      simp only [done, onStream, hquery]
    rw [hdone]
    exact .inl ⟨rfl, by simp, hfailed (.fault cause)⟩
  | ok framed =>
    obtain ⟨deadline, result, finished, network', -, hdone⟩ :=
      Streams.onStream_eq hquery pool server timeout stop reused stream now network
    rw [show done = _ from hdone]
    by_cases hstop : stop.any (· ≤ finished)
    · rw [if_pos hstop]
      exact .inl ⟨rfl, by simp, by simp⟩
    · rw [if_neg hstop]
      cases result with
      | error cause => exact .inl ⟨rfl, by simp, hfailed cause⟩
      | ok bytes => exact .inr ⟨finished, bytes, rfl, rfl⟩

theorem Exchange.draws_run [StreamNetwork ω] (pool : Pool Nat) (query : Bytes) (timeout : Nat)
    (stop : Option Instant) {dial : Dial ω} (hdial : dial.Fails server) (now : Instant)
    (network : ω) :
    let done := run pool server query timeout stop dial now network
    pool.Draws server done.pool (done.result = some (.error .closedConnection)) := by
  intro done
  rcases hpool : pool.checkout server now with ⟨taken, rest⟩
  have harises (h : pool.Arises) : rest.Arises := by
    have hrest := h.checkout server now
    rwa [hpool] at hrest
  cases taken with
  | some stream =>
    have hless := Pool.idleCount_checkout_some hpool
    have hdone : done = onStream rest server query timeout stop true stream now network := by
      simp only [done, run, hpool]
    rw [hdone]
    rcases pool_onStream rest server query timeout stop true stream now network with
      ⟨hkept, -⟩ | ⟨t, bytes, hback, hreply⟩
    · rw [hkept]
      exact ⟨harises, by omega, fun _ => hless⟩
    · have hone := Pool.idleCount_checkin_le rest server t stream
      rw [hback, hreply]
      exact ⟨fun h => (harises h).checkin server t stream, by omega, nofun⟩
  | none =>
    have hempty := Pool.idleCount_checkout_none hpool
    have hnothing {closed : Prop} (h : ¬closed) : pool.Draws server rest closed :=
      ⟨harises, by omega, fun hclosed => absurd hclosed h⟩
    rcases hopened : dial now network with ⟨⟨opened, t⟩, network'⟩
    cases opened with
    | error cause =>
      have hcause : cause ≠ .closedConnection := by
        obtain ⟨f, rfl⟩ := hdial hopened
        exact f.failure_ne_closed server
      by_cases hstop : stop.any (· ≤ t)
      · simpa [done, run, hpool, hopened, hstop] using hnothing id
      · simpa [done, run, hpool, hopened, hstop] using hnothing hcause
    | ok stream =>
      by_cases hstop : stop.any (· ≤ t)
      · simpa [done, run, hpool, hopened, hstop] using hnothing id
      · have hdone : done = onStream rest server query timeout stop false stream t network' := by
          simp [done, run, hpool, hopened, hstop]
        rw [hdone]
        rcases pool_onStream rest server query timeout stop false stream t network' with
          ⟨hkept, -, hreused⟩ | ⟨u, bytes, hback, hreply⟩
        · rw [hkept]
          exact hnothing fun hclosed => Bool.false_ne_true (hreused hclosed)
        · have hone := Pool.idleCount_checkin_le rest server u stream
          rw [hback, hreply]
          exact ⟨fun h => (harises h).checkin server u stream, by omega, nofun⟩

theorem Exchange.not_reused [StreamNetwork ω] (hfresh : (pool.checkout server now).1 = none)
    {query : Bytes} {timeout : Nat} {stop : Option Instant} {dial : Dial ω} {network : ω}
    {reply : Reply}
    (hreply : (run pool server query timeout stop dial now network).result = some (.ok reply)) :
    reply.reused = false := by
  rcases hpool : pool.checkout server now with ⟨taken, rest⟩
  rw [hpool] at hfresh
  obtain rfl : taken = none := hfresh
  rcases hopened : dial now network with ⟨⟨opened, t⟩, network'⟩
  by_cases hstop : stop.any (· ≤ t)
  · cases opened <;> simp [run, hpool, hopened, hstop] at hreply
  · cases opened with
    | error cause => simp [run, hpool, hopened, hstop] at hreply
    | ok stream =>
      have hstream : (onStream rest server query timeout stop false stream t network').result =
          some (.ok reply) := by
        simpa [run, hpool, hopened, hstop] using hreply
      rcases pool_onStream rest server query timeout stop false stream t network' with
        ⟨-, hnone, -⟩ | ⟨u, bytes, -, hbytes⟩
      · exact absurd hstream (hnone reply)
      · rw [hbytes] at hstream
        cases hstream
        rfl

namespace Datagram

variable [DatagramNetwork ω]

theorem run_ne_closed (pool : Pool Nat) (server : SocketAddress) (query : Bytes) (timeout : Nat)
    (stop : Option Instant) (now : Instant) (network : ω) :
    (run pool server query timeout stop now network).result ≠
      some (.error .closedConnection) := by
  have hended := ended_run pool server query timeout stop now network
  generalize run pool server query timeout stop now network = done at hended ⊢
  cases hended with
  | abandoned _ | silent | answered _ _ => exact nofun
  | failed cause =>
    exact fun h => cause.failure_ne_closed server (Except.error.inj (Option.some.inj h))

end Datagram

end Net

theorem Message.encode_ne_closed {m : Message} {cause : Failure} (h : m.encode = .error cause) :
    cause ≠ .closedConnection := by
  unfold encode at h
  split at h
  · cases h
  · cases h
    exact nofun

theorem Message.decode_ne_closed {bytes : Bytes} :
    Message.decode bytes ≠ .error .closedConnection := by
  unfold decode
  split
  · exact nofun
  · exact nofun

section

variable {ω : Type} {p p' : Proxy ω} {closed : Prop}

structure Proxy.Draws (p p' : Proxy ω) (closed : Prop) : Prop where
  endpoint : p'.endpoint = p.endpoint
  streams : p.streams.Draws p.endpoint.address p'.streams closed

namespace Proxy

def idleCount (p : Proxy ω) : Nat := p.streams.idleCount p.endpoint.address

def OpensFresh (p : Proxy ω) (now : Instant) : Prop :=
  (p.streams.checkout p.endpoint.address now).1 = none

theorem Draws.imp {closed' : Prop} (h : p.Draws p' closed) (himp : closed' → closed) :
    p.Draws p' closed' :=
  ⟨h.endpoint, h.streams.imp himp⟩

theorem Draws.idle_le (h : p.Draws p' closed) : p'.idleCount ≤ max p.idleCount 1 := by
  rw [idleCount, h.endpoint]
  exact h.streams.idle_le

theorem Draws.spent (h : p.Draws p' closed) (hclosed : closed) : p'.idleCount < p.idleCount := by
  rw [idleCount, h.endpoint]
  exact h.streams.spent hclosed

variable [Network ω]

theorem draws_exchangeBytes (query : Bytes) (transport : Transport) (timeout : Nat)
    (stop : Option Instant) (now : Instant) (p : Proxy ω) :
    let done := p.exchangeBytes query transport timeout stop now
    p.Draws done.2.2 (done.1 = some (.error .closedConnection)) := by
  obtain ⟨endpoint, health, overStream, readTimeout, stopped, sockets, streams, network⟩ := p
  cases endpoint with
  | plain server =>
    cases transport with
    | datagram =>
      refine ⟨rfl, .refl server streams ?_⟩
      exact Datagram.run_ne_closed sockets server query timeout stop now network
    | stream =>
      exact ⟨rfl, Exchange.draws_run streams query timeout stop (Dial.fails_plain server timeout)
        now network⟩
  | tls server name =>
    exact ⟨rfl, Exchange.draws_run streams query timeout stop
      (Dial.fails_secured server name timeout) now network⟩

theorem draws_exchange (message : Message) (transport : Transport) (timeout : Nat)
    (stop : Option Instant) (now t : Instant) (p : Proxy ω) :
    let done := p.exchange message transport timeout stop now
    p.Draws done.2 (done.1 = some (.error .closedConnection, t)) := by
  intro done
  cases hquery : message.encode with
  | error cause =>
    have hcause : cause ≠ .closedConnection := Message.encode_ne_closed hquery
    have hdone : done = (some (.error cause, now), p) := by
      simp only [done, exchange, hquery]
    rw [hdone]
    refine ⟨rfl, .refl _ _ fun h => hcause ?_⟩
    simpa using congrArg Prod.fst (Option.some.inj h)
  | ok query =>
    have hdraws := p.draws_exchangeBytes query transport timeout stop now
    rcases hbytes : p.exchangeBytes query transport timeout stop now with ⟨result, finished, p'⟩
    rw [hbytes] at hdraws
    have hdone : done = (result.map fun result =>
        (result.bind fun reply => Message.decode reply.bytes, finished), p') := by
      simp only [done, exchange, hquery, hbytes]
    rw [hdone]
    refine hdraws.imp fun hclosed => ?_
    obtain ⟨reply, rfl, hreply⟩ := Option.map_eq_some_iff.mp hclosed
    cases reply with
    | error cause =>
      have hcause : (Except.error cause : Except Failure Message) = .error .closedConnection :=
        congrArg Prod.fst hreply
      cases hcause
      rfl
    | ok reply => exact absurd (congrArg Prod.fst hreply) Message.decode_ne_closed

theorem draws_attempt (now t : Instant) (scope : Scope) (request : Request)
    (preference : Preference) (p : Proxy ω) :
    p.Draws (Resolver.attempt now scope request preference p).2
      ((Resolver.attempt now scope request preference p).1 =
        some (.answered (.error .closedConnection), t)) := by
  have hdraws := p.draws_exchange request.message (preference.select request.transport)
    (scope.bound now p.readTimeout) scope.stop? now t
  refine hdraws.imp fun hclosed => ?_
  obtain ⟨⟨result, finished⟩, hresult, heq⟩ := Option.map_eq_some_iff.mp hclosed
  cases heq
  exact hresult

theorem OpensFresh.not_reused {now : Instant} (h : p.OpensFresh now) {transport : Transport}
    (hstream : p.endpoint.isTls = true ∨ transport = .stream) {query : Bytes} {timeout : Nat}
    {stop : Option Instant} {reply : Reply}
    (hreply : (p.exchangeBytes query transport timeout stop now).1 = some (.ok reply)) :
    reply.reused = false := by
  obtain ⟨endpoint, health, overStream, readTimeout, stopped, sockets, streams, network⟩ := p
  cases endpoint with
  | plain server =>
    obtain rfl : transport = .stream := hstream.resolve_left nofun
    exact Exchange.not_reused h hreply
  | tls server name => exact Exchange.not_reused h hreply

end Proxy

end

namespace Worker

variable {ω : Type} {s s' : Standing (Proxy ω)}

/-- The closed connections that a worker met since its last charge, and those that it may still
meet, are free of charge; a truncated reply may leave one more behind. -/
structure Thrifty (s : Standing (Proxy ω)) : Prop where
  arises : s.resolver.streams.Arises
  spare : s.worker.uncounted + s.resolver.idleCount ≤
    if s.worker.Escalates then Pool.capacity else tolerance

theorem capacity_le_allowance (w : Worker) :
    Pool.capacity ≤ if w.Escalates then Pool.capacity else tolerance := by
  split
  · exact Nat.le_refl _
  · decide

theorem Thrifty.of_uncounted (harises : s.resolver.streams.Arises) (h : s.worker.uncounted = 0) :
    Thrifty s where
  arises := harises
  spare := by
    have hidle : s.resolver.idleCount ≤ Pool.capacity := harises.idleCount_le _
    have hallowance := capacity_le_allowance s.worker
    omega

theorem Thrifty.le_tolerance (h : Thrifty s) :
    s.worker.uncounted + s.resolver.idleCount ≤ tolerance := by
  have hspare := h.spare
  have hcapacity : Pool.capacity ≤ tolerance := by decide
  split at hspare <;> omega

variable [Network ω] {maxFails : UInt32} {scope : Scope} {request : Request}

theorem draws_of_attempt {w : Worker} {now t : Instant} {p p' : Proxy ω} {a : Attempt}
    (h : w.attempt scope request now p = (some (a, t), p')) :
    p.Draws p' (a = .answered (.error .closedConnection)) := by
  have hover {cause : Failure} {t : Instant} (hverdict : scope.verdict? t = some cause) :
      Attempt.answered (.error cause) ≠ .answered (.error .closedConnection) := by
    rcases Scope.verdict?_eq_some hverdict with ⟨-, rfl⟩ | ⟨-, -, rfl⟩
    · exact nofun
    · exact nofun
  cases attempted_of_attempt h with
  | shut hverdict => exact ⟨rfl, .refl _ _ (hover hverdict)⟩
  | ended hopen hattempt ht =>
    have hdraws := p.draws_attempt now t scope request w.preference
    rw [hattempt] at hdraws
    exact hdraws.imp fun hclosed => by rw [hclosed]
  | cut hopen hattempt hstop hverdict =>
    have hdraws := p.draws_attempt now t scope request w.preference
    rw [hattempt] at hdraws
    exact hdraws.imp fun hclosed => absurd hclosed (hover hverdict)

theorem charge_keeps (maxFails : UInt32) (p : Proxy ω) :
    (charge maxFails p).endpoint = p.endpoint ∧ (charge maxFails p).streams = p.streams := by
  have hprobe (p : Proxy ω) :
      p.requestProbe.endpoint = p.endpoint ∧ p.requestProbe.streams = p.streams := by
    unfold Proxy.requestProbe
    split
    · exact ⟨rfl, rfl⟩
    · split <;> exact ⟨rfl, rfl⟩
  unfold charge
  split
  · exact ⟨rfl, rfl⟩
  · exact hprobe p.recordFailure

theorem Thrifty.round (h : Thrifty s) (hround : Round maxFails scope request s s') :
    Thrifty s' := by
  cases hround with
  | @again w t p result ha ho =>
    have hdraws := draws_of_attempt ha
    refine ⟨hdraws.streams.arises h.arises, ?_⟩
    rcases of_observe_again ho with ⟨rfl, rfl⟩ | ⟨hescalates, rfl⟩
    · -- the connection that was closed is no longer idle
      have hspent := hdraws.spent rfl
      refine Nat.le_trans ?_ h.spare
      dsimp only
      omega
    · -- a truncated reply puts its connection back; the tolerance is larger than the capacity
      have hspare := h.spare
      have hidle := hdraws.idle_le
      have hcapacity : Pool.capacity < tolerance := by decide
      rw [if_pos hescalates] at hspare
      rw [if_neg fun hforced => hforced.1 rfl]
      dsimp only
      omega
  | @charged w t p result ha ho =>
    obtain ⟨-, hstreams⟩ := charge_keeps maxFails p
    refine .of_uncounted ?_ (congrArg uncounted (of_observe_charged ho))
    rw [hstreams]
    exact (draws_of_attempt ha).streams.arises h.arises

theorem Thrifty.rounds (h : Thrifty s) (hrounds : Rounds maxFails scope request s s') :
    Thrifty s' := by
  induction hrounds with
  | refl => exact h
  | tail _ hround ih => exact ih.round hround

theorem Thrifty.free (h : Thrifty s) {t : Instant} {p : Proxy ω}
    (ha : s.attempt scope request = (some (.answered (.error .closedConnection), t), p)) :
    s.worker.uncounted < tolerance := by
  have hspent := (draws_of_attempt ha).spent rfl
  have hle := h.le_tolerance
  omega

/-- So many attempts in a row find their connections closed. -/
inductive Stale (scope : Scope) (request : Request) (s : Standing (Proxy ω)) :
    Nat → Standing (Proxy ω) → Prop
  | start : Stale scope request s 0 s
  | more {n : Nat} {s' : Standing (Proxy ω)} {t : Instant} {p : Proxy ω}
    (h : Stale scope request s n s')
    (ha : s'.attempt scope request = (some (.answered (.error .closedConnection), t), p)) :
    Stale scope request s (n + 1)
      ⟨{ s'.worker with uncounted := s'.worker.uncounted + 1 }, t, p⟩

theorem Stale.idle_le {n : Nat} (h : Stale scope request s n s') :
    n + s'.resolver.idleCount ≤ s.resolver.idleCount := by
  induction h with
  | start => exact Nat.le_of_eq (Nat.zero_add _)
  | more _ ha ih =>
    have hspent := (draws_of_attempt ha).spent rfl
    dsimp only
    omega

theorem Stale.rounds {n : Nat} (h : Stale scope request s n s') (hthrifty : Thrifty s)
    (maxFails : UInt32) : Rounds maxFails scope request s s' := by
  induction h with
  | start => exact .refl
  | more _ ha ih =>
    have hfree := (hthrifty.rounds ih).free ha
    exact ih.tail (.again ha (observe_closed hfree request maxFails _ _))

/-- What a worker owes to connections that the peer has closed: nothing. -/
structure Unharmed (maxFails : UInt32) (scope : Scope) (request : Request)
    (s : Standing (Proxy ω)) : Prop where
  /-- An attempt that finds its connection closed is followed by another and not charged. -/
  free : ∀ t p, s.attempt scope request = (some (.answered (.error .closedConnection), t), p) →
    s.next maxFails scope request t (.error .closedConnection) =
      .again { s.worker with uncounted := s.worker.uncounted + 1 }
  /-- After the last attempt that may be free no idle connection is left. -/
  fresh : s.worker.uncounted = tolerance → s.resolver.OpensFresh s.now
  /-- The peer may have closed all of them. -/
  drained : ∀ n s', Stale scope request s n s' → Rounds maxFails scope request s s' ∧
    (s.resolver.idleCount ≤ n → s'.resolver.OpensFresh s'.now)

theorem Thrifty.unharmed (h : Thrifty s) : Unharmed maxFails scope request s where
  free t p ha := observe_closed (h.free ha) request maxFails _ _
  fresh hlast := by
    have hle := h.le_tolerance
    exact Pool.checkout_of_idle (by rw [← Proxy.idleCount]; omega) s.now
  drained n s' hstale := by
    refine ⟨hstale.rounds h maxFails, fun hall => ?_⟩
    have hle := hstale.idle_le
    exact Pool.checkout_of_idle (by rw [← Proxy.idleCount]; omega) s'.now

/-- Connections that the peer closed while they were idle never cost a worker a failure: not on
the way, and not in the end. -/
theorem unharmed_by_stale {p : Proxy ω} (hpool : p.streams.Arises) (maxFails : UInt32)
    (scope : Scope) (request : Request) (preference : Preference) (now : Instant) :
    (∀ s, Rounds maxFails scope request ⟨⟨preference, 0, 0⟩, now, p⟩ s →
      Unharmed maxFails scope request s) ∧
    ∀ ended number, Worker.run maxFails scope request ⟨preference, 0, 0⟩ now p = some ended →
      ended.ending.outcome number ≠ .failed .closedConnection := by
  have hstart : Thrifty ⟨⟨preference, 0, 0⟩, now, p⟩ := .of_uncounted hpool rfl
  refine ⟨fun s hrounds => (hstart.rounds hrounds).unharmed, fun ended number hrun hclosed => ?_⟩
  obtain ⟨last, hrounds, ⟨detail, hcrashed⟩ | ⟨t, p', result, charged, outcome, ha, ho, hend⟩⟩ :=
    exists_last (s := ⟨⟨preference, 0, 0⟩, now, p⟩) hrun
  · rw [hcrashed] at hclosed
    cases hclosed
  · rw [hend] at hclosed
    obtain rfl : outcome = .failed .closedConnection := hclosed
    obtain rfl := of_observe_failed ho
    have hlast : Unharmed maxFails scope request last := (hstart.rounds hrounds).unharmed
    rw [hlast.free t p' ha] at ho
    cases ho

end Worker

namespace Rehearsal

/-- A network where every stream opens, and what comes back over streams follows a script. -/
structure Script where
  replies : List (Except StreamFailure Bytes)

instance : Network Script where
  ask _ now _ _ ω := match ω.replies with
    | [] => ((.error .timeout, now), ω)
    | reply :: rest => ((reply, now), ⟨rest⟩)
  drop _ _ ω := ω
  openSocket _ _ ω := (.error Unreachable.fault, ω)
  send _ _ _ ω := (.error Unreachable.fault, ω)
  arrivals _ _ := []
  take _ _ ω := ω
  close _ _ ω := ω
  connect _ _ now ω := ((.ok 3, now), ω)
  secure _ _ _ now ω := ((.ok (), now), ω)

def closingServer : SocketAddress := ⟨.v4 ⟨192, 0, 2, 1⟩, 853⟩

/-- A resolver with as many idle connections as are kept, all of them closed by the peer; so is
the one on which it gets a truncated reply. -/
def closing : Proxy Script where
  endpoint := .tls closingServer "dns.example"
  sockets := { expire := 1000 }
  streams := (({ expire := 1000 } : Pool Nat).checkin closingServer 0 1).checkin closingServer 0 2
  network := ⟨[.error (.fault Fault.earlyEnd), .error (.fault Fault.brokenPipe),
    .ok [0, 7, 130, 0, 0, 0, 0, 0, 0, 0, 0, 0], .error (.fault Fault.earlyEnd)]⟩

open Worker in
theorem unharmed_closing :
    closing.streams.Arises ∧
    ∃ s, Rounds 2 {} ⟨Message.probe 7, .datagram, none⟩
        ⟨⟨{ preferDatagram := true }, 0, 0⟩, 0, closing⟩ s ∧
      s.worker = ⟨{ forceStream := true, preferDatagram := true }, 0, tolerance⟩ ∧
      Unharmed 2 {} ⟨Message.probe 7, .datagram, none⟩ s := by
  have hpool : closing.streams.Arises :=
    ((Pool.Arises.empty 1000).checkin closingServer 0 1).checkin closingServer 0 2
  have hunharmed := (unharmed_by_stale hpool 2 {} ⟨Message.probe 7, .datagram, none⟩
    { preferDatagram := true } 0).1
  have hrounds : Rounds 2 {} ⟨Message.probe 7, .datagram, none⟩
      ⟨⟨{ preferDatagram := true }, 0, 0⟩, 0, closing⟩ _ :=
    (((Relation.ReflTransGen.single (.again rfl rfl)).tail (.again rfl rfl)).tail
      (.again rfl rfl)).tail (.again rfl rfl)
  exact ⟨hpool, _, hrounds, rfl, hunharmed _ hrounds⟩

end Rehearsal

end DnsFanout
