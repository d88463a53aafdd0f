import DnsFanout.Proofs.Framing
import DnsFanout.Proofs.Streams.Basic

/-! An exchange that runs by itself goes as its steps may go: it is one of the runs. -/

namespace DnsFanout.Net

namespace Dial

/-- Opening a stream fails in the ways that transports know, and no others. -/
def Fails {ω : Type} (server : SocketAddress) (dial : Dial ω) : Prop :=
  ∀ {now : Instant} {network network' : ω} {cause : Failure} {t : Instant},
    dial now network = ((.error cause, t), network') → ∃ f : DialFailure, cause = f.failure server

variable {ω : Type} [Network ω]

theorem fails_plain (server : SocketAddress) (timeout : Nat) :
    Fails server (Dial.plain (ω := ω) server timeout) := by
  intro now network network' cause t h
  unfold plain at h
  rcases hconnect : Network.connect server (min timeout maxDuration) now network with
    ⟨⟨opened, finished⟩, after⟩
  rw [hconnect] at h
  cases opened with
  | ok n => cases h
  | error failed =>
    cases h
    exact ⟨.connecting failed, rfl⟩

theorem fails_secured (server : SocketAddress) (name : String) (timeout : Nat) :
    Fails server (Dial.secured (ω := ω) server name timeout) := by
  intro now network network' cause t h
  unfold secured at h
  split at h
  · split at h
    · next failed u after hplain =>
      cases h
      exact fails_plain server timeout hplain
    · next n u middle hplain =>
      split at h
      · cases h
      · next failed v after hsecure =>
        cases h
        exact ⟨.securing failed, rfl⟩
  · cases h
    exact ⟨.naming name, rfl⟩

end Dial

namespace Frame

theorem missing_word16 {n : Nat} (h : n ≤ maxSize) : missing (word16 n) = n := by
  show (ofWord16 (n / 256).toUInt8 n.toUInt8).toNat - 0 = n
  rw [toNat_ofWord16 (by simp only [maxSize] at h; omega), Nat.sub_zero]

theorem split?_word16 {message : Bytes} (h : message.length ≤ maxSize) :
    split? (word16 message.length ++ message) = some (message, []) := by
  simpa [frame] using split?_frame h []

end Frame

namespace Streams

variable {server : SocketAddress} {queries : Nat → Bytes} {s s' : State} {k n : Nat}
  {reused : Bool}

/-- Steps lead to where an exchange leaves off, with the others where they were. -/
def Completes (server : SocketAddress) (queries : Nat → Bytes) (k : Nat) {ω : Type} (s : State)
    (done : Exchanged ω) : Prop :=
  ∃ s', Run server queries s s' ∧ s'.pool = done.pool ∧ s'.stage k = .done done.result ∧
    ∀ j, j ≠ k → s'.stage j = s.stage j

variable {ω : Type} {done : Exchanged ω}

theorem Completes.of_last {here there : Stage} {deed : Option (Nat × Deed)} {pool : Pool Nat}
    (hstage : s.stage k = here)
    (hmove : Move server (queries k) (fun n => s.uses n = []) here s.pool deed there pool)
    (hpool : pool = done.pool) (hover : there = .done done.result) :
    Completes server queries k s done :=
  ⟨s.after k deed there pool, .single (.move (hstage ▸ hmove)), hpool,
    (State.stage_after ..).trans hover, fun _ hj => State.stage_after_other _ _ _ _ hj deed⟩

theorem Completes.before {here there : Stage} {deed : Option (Nat × Deed)} {pool : Pool Nat}
    (hstage : s.stage k = here)
    (hmove : Move server (queries k) (fun n => s.uses n = []) here s.pool deed there pool)
    (h : Completes server queries k (s.after k deed there pool) done) :
    Completes server queries k s done := by
  obtain ⟨s', hrun, hpool, hover, hothers⟩ := h
  exact ⟨s', .head (.move (hstage ▸ hmove)) hrun, hpool, hover, fun j hj =>
    (hothers j hj).trans (State.stage_after_other _ _ _ _ hj deed)⟩

variable [StreamNetwork ω]

/-- What the network reads as a reply fits in a frame. -/
def ReadsFrames (ω : Type) [StreamNetwork ω] : Prop :=
  ∀ {n : Nat} {now deadline : Instant} {framed bytes : Bytes} {network : ω},
    (StreamNetwork.ask n now deadline framed network).1.1 = .ok bytes →
      bytes.length ≤ Frame.maxSize

theorem onStream_eq {query framed : Bytes} (hquery : Frame.encode query = .ok framed)
    (pool : Pool Nat) (server : SocketAddress) (timeout : Nat) (stop : Option Instant)
    (reused : Bool) (n : Nat) (now : Instant) (network : ω) :
    ∃ deadline result finished network',
      StreamNetwork.ask n now deadline framed network = ((result, finished), network') ∧
      Exchange.onStream pool server query timeout stop reused n now network =
        if stop.any (· ≤ finished) then
          ⟨none, finished, pool, StreamNetwork.drop n finished network'⟩
        else match result with
          | .error cause => ⟨some (.error (Exchange.failure server reused cause)), finished, pool,
              StreamNetwork.drop n finished network'⟩
          | .ok bytes => ⟨some (.ok ⟨bytes, reused⟩), finished, pool.checkin server finished n,
              (Exchange.release pool server finished n network').2⟩ := by
  unfold Exchange.onStream
  rw [hquery]
  exact ⟨_, _, _, _, rfl, rfl⟩

theorem completes_onStream (server : SocketAddress) (queries : Nat → Bytes)
    (hframes : ReadsFrames ω) (hstage : s.stage k = .writing n reused []) (timeout : Nat)
    (stop : Option Instant) (now : Instant) (network : ω) :
    Completes server queries k s (Exchange.onStream s.pool server (queries k) timeout stop
      reused n now network) := by
  cases hquery : Frame.encode (queries k) with
  | error cause =>
    refine .of_last hstage (.fail (.fault cause) rfl) ?_ ?_ <;> simp [Exchange.onStream, hquery]
  | ok framed =>
    obtain ⟨deadline, result, finished, network', hask, hdone⟩ :=
      onStream_eq hquery s.pool server timeout stop reused n now network
    rw [hdone]
    by_cases hstop : stop.any (· ≤ finished)
    · rw [if_pos hstop]
      exact .of_last hstage (.drop rfl) rfl rfl
    · rw [if_neg hstop]
      cases result with
      | error cause => exact .of_last hstage (.fail cause rfl) rfl rfl
      | ok reply =>
        have hreply : reply.length ≤ Frame.maxSize := hframes (congrArg (·.1.1) hask)
        -- the query is written at once; of the reply the length is read first
        refine .before hstage (.write framed hquery (List.prefix_refl _)) ?_
        refine .before (State.stage_after ..) (.flush hquery) ?_
        refine .before (State.stage_after ..) (.hear (word16 reply.length) (Nat.le_refl 2)) ?_
        refine .before (State.stage_after ..)
          (.hear reply (Nat.le_of_eq (Frame.missing_word16 hreply).symm)) ?_
        exact .of_last (State.stage_after ..) (.finish finished (Frame.split?_word16 hreply))
          rfl rfl

theorem completes_run (queries : Nat → Bytes) (hframes : ReadsFrames ω)
    (hready : s.stage k = .ready) (timeout : Nat) (stop : Option Instant) {dial : Dial ω}
    (hdial : dial.Fails server) (now : Instant) (network : ω)
    (hfresh : ∀ n t network', dial now network = ((.ok n, t), network') → s.uses n = []) :
    Completes server queries k s
      (Exchange.run s.pool server (queries k) timeout stop dial now network) := by
  unfold Exchange.run
  split
  · next n pool hpool =>
    exact .before hready (.take now hpool)
      (completes_onStream server queries hframes (State.stage_after ..) timeout stop now network)
  · next pool hpool =>
    have hdialing : (s.after k none .dialing pool).stage k = .dialing := State.stage_after ..
    refine .before hready (.dial now hpool) ?_
    rcases hopened : dial now network with ⟨⟨opened, t⟩, network'⟩
    cases opened with
    | error cause =>
      obtain ⟨f, rfl⟩ := hdial hopened
      by_cases hstop : stop.any (· ≤ t)
      · simp only [hstop, if_true]
        exact .of_last hdialing (.leave (.inr rfl)) rfl rfl
      · simp only [hstop]
        exact .of_last hdialing (.refuse f) rfl rfl
    | ok n =>
      have hn : (s.after k none .dialing pool).uses n = [] :=
        (State.uses_after_none ..).trans (hfresh n t network' hopened)
      refine .before hdialing (.connect hn) ?_
      by_cases hstop : stop.any (· ≤ t)
      · simp only [hstop, if_true]
        exact .of_last (State.stage_after ..) (.drop rfl) rfl rfl
      · simp only [hstop]
        exact completes_onStream server queries hframes (State.stage_after ..) timeout stop t
          network'

end Streams

end DnsFanout.Net
