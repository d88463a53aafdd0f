import DnsFanout.Proofs.Datagrams
import DnsFanout.Proofs.ProbeLoops

/-! Probe loops that run by themselves: their probes, their pauses and their stop are steps as
they may be taken among others. -/

namespace DnsFanout

open Net

namespace Net

variable {ω : Type}

theorem Exchange.run_isSome [StreamNetwork ω] (pool : Pool Nat) (server : SocketAddress)
    (query : Bytes) (timeout : Nat) (dial : Dial ω) (now : Instant) (network : ω) :
    (run pool server query timeout none dial now network).result.isSome := by
  have hstream (pool : Pool Nat) (reused : Bool) (stream : Nat) (now : Instant) (network : ω) :
      (onStream pool server query timeout none reused stream now network).result.isSome := by
    unfold onStream
    split
    · rfl
    · simp only [Option.any_none, Bool.false_eq_true, if_false]
      split <;> rfl
  unfold run
  split
  · exact hstream ..
  · simp only [Option.any_none, Bool.false_eq_true, if_false]
    split
    · rfl
    · exact hstream ..

theorem Datagram.run_isSome [DatagramNetwork ω] (pool : Pool Nat) (server : SocketAddress)
    (query : Bytes) (timeout : Nat) (now : Instant) (network : ω) :
    (run pool server query timeout none now network).result.isSome := by
  have hended := ended_run pool server query timeout none now network
  generalize run pool server query timeout none now network = done at hended ⊢
  cases hended with
  | abandoned hstop => cases hstop
  | failed _ | silent | answered _ _ => rfl

end Net

namespace Proxy

variable {ω : Type} [Network ω]

theorem exchange_isSome (message : Message) (transport : Transport) (timeout : Nat)
    (now : Instant) (p : Proxy ω) :
    (p.exchange message transport timeout none now).1.isSome := by
  have hbytes (query : Bytes) :
      (p.exchangeBytes query transport timeout none now).1.isSome := by
    unfold exchangeBytes
    split
    · exact Datagram.run_isSome ..
    · exact Exchange.run_isSome ..
    · exact Exchange.run_isSome ..
  unfold exchange
  split
  · rfl
  · next query hquery =>
    rw [Option.isSome_map]
    exact hbytes query

end Proxy

namespace Probing

variable {ω : Type} [Network ω] {s s' s'' : Probing ω} {events more : List Event} {i : Nat}

theorem Run.append (h : Run s events s') (hmore : Run s' more s'') :
    Run s (events ++ more) s'' := by
  induction h with
  | nil => exact hmore
  | cons hstep _ ih => exact .cons hstep (ih hmore)

/-- A probe that runs by itself is made of steps of its loop. -/
theorem run_probe (hphase : s.phase i = some .ready) (id : UInt16) (now : Instant) :
    ∃ events s', Run s events s' ∧ s'.proxy = (s.proxy.probe id now).2 ∧
      (s'.phase i = some .tired ∨ s'.proxy.health.probing = false) := by
  rw [s.proxy.probe_eq_after]
  obtain ⟨⟨result, finished⟩, hresult⟩ := Option.isSome_iff_exists.mp
    (show (s.proxy.sendProbe id now).1.isSome from Proxy.exchange_isSome ..)
  let sent : Probing ω := ⟨s.proxy.meet (.probe id now),
    Function.update s.phase i (some (.waiting id)), s.begun⟩
  have hsend : Step s (.loop i (.send id now)) sent := .loop hphase (.send id now)
  have hwaiting : sent.phase i = some (.waiting id) := Function.update_self ..
  rw [hresult]
  cases hjudge : Proxy.judge id result with
  | ok =>
    let good : Probing ω := ⟨sent.proxy.meet .good,
      Function.update sent.phase i (some .leaving), s.begun⟩
    have hgood : Step sent (.loop i (.hear result)) good := .loop hwaiting (.good hjudge)
    have hleave : Step good (.loop i .leave) ⟨good.proxy.meet .leave, _, s.begun⟩ :=
      .loop (Function.update_self ..) .leave
    refine ⟨_, _, .cons hsend (.cons hgood (.cons hleave (.nil _))), ?_, .inr rfl⟩
    simp only [Proxy.outcome, hjudge]
    rfl
  | error cause =>
    let bad : Probing ω := ⟨sent.proxy.meet .bad,
      Function.update sent.phase i (some .tired), s.begun⟩
    have hbad : Step sent (.loop i (.hear result)) bad := .loop hwaiting (.bad hjudge)
    refine ⟨_, _, .cons hsend (.cons hbad (.nil _)), ?_, .inl (Function.update_self ..)⟩
    simp only [Proxy.outcome, hjudge]
    rfl

theorem run_pause (htired : s.phase i = some .tired) (hrunning : s.proxy.stopped = false)
    (now : Instant) :
    ∃ events s', Run s events s' ∧ s'.proxy = s.proxy ∧ s'.phase i = some .ready := by
  by_cases hlong : 0 < s.proxy.health.interval.toNat
  · let asleep : Probing ω := ⟨s.proxy,
      Function.update s.phase i (some (.pausing (now + s.proxy.health.interval.toNat))), s.begun⟩
    have hpause : Step s (.loop i (.look now)) asleep :=
      .loop htired (.pause (.early hrunning (Nat.lt_add_of_pos_right hlong)))
    have hwake : Step asleep (.loop i (.look (now + s.proxy.health.interval.toNat)))
        ⟨s.proxy, Function.update asleep.phase i (some .ready), s.begun⟩ :=
      .loop (Function.update_self ..) (.wake (.due (Nat.le_refl _)))
    exact ⟨_, _, .cons hpause (.cons hwake (.nil _)), rfl, Function.update_self ..⟩
  · have hzero : s.proxy.health.interval.toNat = 0 := Nat.eq_zero_of_not_pos hlong
    have hdue : now + s.proxy.health.interval.toNat ≤ now :=
      Nat.le_of_eq (by rw [hzero, Nat.add_zero])
    have hpause : Step s (.loop i (.look now))
        ⟨s.proxy, Function.update s.phase i (some .ready), s.begun⟩ :=
      .loop htired (.pause (.due hdue))
    exact ⟨_, _, .cons hpause (.nil _), rfl, Function.update_self ..⟩

/-- A loop that sees in its pause that the resolver was stopped ends. -/
theorem run_leave {phase : Phase} {now : Instant} (hphase : s.phase i = some phase)
    (hlook : Move s.proxy phase (.look now) (some .leaving) s.proxy) :
    ∃ s', Run s [.loop i (.look now), .loop i .leave] s' ∧ s'.proxy = s.proxy.leave ∧
      s'.phase i = none := by
  let woken : Probing ω := ⟨s.proxy, Function.update s.phase i (some .leaving), s.begun⟩
  have hwake : Step s (.loop i (.look now)) woken := .loop hphase hlook
  have hleave : Step woken (.loop i .leave) ⟨woken.proxy.meet .leave, _, s.begun⟩ :=
    .loop (Function.update_self ..) .leave
  exact ⟨_, .cons hwake (.cons hleave (.nil _)), rfl, Function.update_self ..⟩

theorem run_probeRounds (ids : Nat → UInt16) (enough : Proxy ω → Bool) (rounds : Nat)
    (now : Instant) (hphase : s.phase i = some .ready) :
    ∃ events s', Run s events s' ∧
      s'.proxy = (s.proxy.probeRounds ids enough rounds now).2 := by
  induction rounds generalizing s now with
  | zero => exact ⟨[], s, .nil s, rfl⟩
  | succ rounds ih =>
    rw [Proxy.probeRounds]
    split
    · exact ⟨[], s, .nil s, rfl⟩
    · obtain ⟨events, probed, hrun, hproxy, hnext⟩ := run_probe hphase (ids rounds) now
      rcases hprobe : s.proxy.probe (ids rounds) now with ⟨t, p'⟩
      rw [hprobe] at hproxy
      subst hproxy
      dsimp only
      split
      · exact ⟨events, probed, hrun, rfl⟩
      · next hmore =>
        have htired : probed.phase i = some .tired := by
          refine hnext.resolve_right fun hfree => hmore ?_
          simp [hfree]
        split
        · next hstopped =>
          have hlook : Move probed.proxy .tired (.look t) (some .leaving) probed.proxy :=
            .pause (.stopped hstopped)
          obtain ⟨last, hend, hlast, -⟩ := run_leave htired hlook
          exact ⟨_, last, hrun.append hend, hlast⟩
        · next hrunning =>
          obtain ⟨pause, rested, hpause, hsame, hready⟩ :=
            run_pause htired (Bool.eq_false_iff.mpr hrunning) t
          obtain ⟨rest, last, hrest, hlast⟩ :=
            ih (t + probed.proxy.health.interval.toNat) hready
          rw [hsame] at hlast
          exact ⟨_, last, (hrun.append hpause).append hrest, hlast⟩

/-- A resolver with a loop that pauses is stopped, and then the loop ends. -/
theorem run_stop {till : Instant} (hphase : s.phase i = some (.pausing till)) (now : Instant) :
    ∃ s', Run s [.stop now, .loop i (.look now), .loop i .leave] s' ∧
      s'.proxy = (s.proxy.stop now).leave ∧ s'.phase i = none := by
  have hlook : Move (s.meet (.shut now)).proxy (.pausing till) (.look now) (some .leaving)
      (s.meet (.shut now)).proxy := .wake (.stopped rfl)
  obtain ⟨last, hend, hlast⟩ := run_leave (s := s.meet (.shut now)) hphase hlook
  exact ⟨last, .cons (.stop s now) hend, hlast⟩

end Probing

end DnsFanout
