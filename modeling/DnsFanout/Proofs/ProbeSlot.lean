import DnsFanout.Proofs.Incident

/-! A resolver that the workers of many queries share with its probe loop. The counter
and the probe slot are accessed one at a time, in any order, and a failure that is charged
while a loop is about to end may be left without a probe. -/

namespace DnsFanout

open Net

/-- A resolver among the accesses to its health. -/
structure Shared (ω : Type) where
  proxy : Proxy ω
  /-- The workers that charged a failure and have not asked for its probe yet. -/
  asking : List Nat := []
  /-- The probe loops with a probe ahead of them. -/
  looping : Nat := 0
  /-- The probe loops that had a good probe and have not ended yet. -/
  leaving : Nat := 0
  /-- The failures charged while the loop with the last good probe had not ended yet. -/
  late : Nat := 0

/-- One access to a shared resolver. A worker is known by its number. -/
inductive Access
  /-- Octets go out and come back, for a query or for a probe. -/
  | exchange (message : Message) (transport : Transport) (timeout : Nat)
      (stop : Option Instant) (now : Instant)
  | charge (worker : Nat)
  | ask (worker : Nat)
  /-- A probe failed. -/
  | bad
  /-- A probe was good. -/
  | good
  /-- A loop gives the probe slot back. -/
  | leave

namespace Shared

variable {ω : Type}

section

variable [Network ω]

/-- A failure is charged by a worker that asked for a probe after the one before. -/
def charge (worker : Nat) (s : Shared ω) : Shared ω :=
  if worker ∈ s.asking then s
  else { s with
    proxy := s.proxy.meet .charge
    asking := worker :: s.asking
    late := if s.leaving = 0 then s.late else s.late + 1 }

/-- A worker that charged a failure asks for a probe, and begins the loop if it gets the
slot. -/
def ask (worker : Nat) (s : Shared ω) : Shared ω :=
  if worker ∈ s.asking then
    let proxy := s.proxy.meet .ask
    let claimed := !s.proxy.health.probing && proxy.health.probing
    { s with
      proxy
      asking := s.asking.erase worker
      looping := if claimed then s.looping + 1 else s.looping }
  else s

def bad (s : Shared ω) : Shared ω :=
  if s.looping = 0 then s else { s with proxy := s.proxy.meet .bad }

def good (s : Shared ω) : Shared ω :=
  if s.looping = 0 then s
  else { s with
    proxy := s.proxy.meet .good
    looping := s.looping - 1
    leaving := s.leaving + 1
    late := 0 }

def leave (s : Shared ω) : Shared ω :=
  if s.leaving = 0 then s
  else { s with
    proxy := s.proxy.meet .leave
    leaving := s.leaving - 1 }

/-- An access out of turn is none. -/
def access (s : Shared ω) : Access → Shared ω
  | .exchange message transport timeout stop now =>
    { s with proxy := (s.proxy.exchange message transport timeout stop now).2 }
  | .charge worker => s.charge worker
  | .ask worker => s.ask worker
  | .bad => s.bad
  | .good => s.good
  | .leave => s.leave

def after (s : Shared ω) (accesses : List Access) : Shared ω := accesses.foldl access s

/-- A resolver when it is registered with a forwarder. -/
def registered (endpoint : Endpoint) (expire : UInt64) (overStream : Bool) (timeout : Nat)
    (interval : UInt64) (network : ω) : Shared ω where
  proxy := Resolver.start interval
    { Proxy.ofEndpoint endpoint expire overStream network with readTimeout := timeout }

end

/-- What every access preserves while the resolver is not stopped. -/
structure Sound (s : Shared ω) : Prop where
  running : s.proxy.stopped = false
  /-- The slot is held by one loop, or there is none. -/
  slot : s.looping + s.leaving = if s.proxy.health.probing then 1 else 0
  /-- While a loop is about to end only the late failures count. -/
  window : s.leaving ≠ 0 → s.proxy.health.fails.toNat = min s.late Health.maxCount.toNat
  /-- With the slot free, every other failure is one that a probe will be asked for. -/
  free : s.proxy.health.probing = false → ∃ k ≤ s.asking.length,
    s.proxy.health.fails.toNat = min (s.late + k) Health.maxCount.toNat

/-- The loops have ended and no worker is about to begin one. -/
structure Calm (s : Shared ω) : Prop where
  asking : s.asking = []
  looping : s.looping = 0
  leaving : s.leaving = 0

namespace Sound

variable {s : Shared ω}

theorem slot_held (h : s.Sound) (hp : s.proxy.health.probing = true) :
    s.looping + s.leaving = 1 := by
  rw [h.slot, hp, if_pos rfl]

theorem slot_free (h : s.Sound) (hp : s.proxy.health.probing = false) :
    s.looping = 0 ∧ s.leaving = 0 := by
  have hslot := h.slot
  rw [hp, if_neg Bool.false_ne_true] at hslot
  omega

theorem held_of_loop (h : s.Sound) (hloop : s.looping ≠ 0 ∨ s.leaving ≠ 0) :
    s.proxy.health.probing = true := by
  cases hp : s.proxy.health.probing with
  | true => rfl
  | false =>
    have hfree := h.slot_free hp
    omega

theorem calm (h : s.Sound) (hquiet : s.asking = [])
    (hfree : s.proxy.health.probing = false) : s.Calm :=
  ⟨hquiet, (h.slot_free hfree).1, (h.slot_free hfree).2⟩

variable [Network ω]

theorem running_meet (h : s.Sound) {e : Incident} (he : e.shuts = false) :
    (s.proxy.meet e).stopped = false := by
  rw [s.proxy.stopped_meet, h.running, he, Bool.or_false]

theorem held_meet (h : s.Sound) (hloop : s.looping ≠ 0) {e : Incident} (hask : e ≠ .ask)
    (hleave : e ≠ .leave) : (s.proxy.meet e).health.probing = true :=
  (s.proxy.probing_meet hask hleave).trans (h.held_of_loop (.inl hloop))

theorem charge (h : s.Sound) (worker : Nat) : (s.charge worker).Sound := by
  unfold Shared.charge
  split
  · exact h
  · have hprobing : (s.proxy.meet .charge).health.probing = s.proxy.health.probing :=
      s.proxy.probing_meet nofun nofun
    have hmet : (s.proxy.meet .charge).health.fails.toNat =
        min (s.proxy.health.fails.toNat + 1) Health.maxCount.toNat := s.proxy.fails_meet .charge
    constructor
    case running => exact h.running_meet rfl
    case slot => simpa only [hprobing] using h.slot
    case window =>
      intro hleave
      have hfails := h.window hleave
      simp only [hmet, hfails, if_neg hleave]
      omega
    case free =>
      intro hfree
      simp only [hprobing] at hfree
      obtain ⟨k, hk, hfails⟩ := h.free hfree
      -- no loop is about to end, so the failure is not a late one
      refine ⟨k + 1, Nat.succ_le_succ hk, ?_⟩
      simp only [hmet, hfails, if_pos (h.slot_free hfree).2]
      omega

theorem ask (h : s.Sound) (worker : Nat) : (s.ask worker).Sound := by
  unfold Shared.ask
  split
  · have hheld : (s.proxy.meet .ask).health.probing = true := s.proxy.probing_ask h.running
    have hmet : (s.proxy.meet .ask).health.fails.toNat =
        min (s.proxy.health.fails.toNat + 0) Health.maxCount.toNat := s.proxy.fails_meet .ask
    constructor
    case running => exact h.running_meet rfl
    case slot =>
      simp only [hheld, Bool.and_true, Bool.not_eq_true', if_true]
      cases hp : s.proxy.health.probing with
      | true =>
        -- the slot is lost to the loop that holds it
        exact h.slot_held hp
      | false =>
        obtain ⟨hloop, hleave⟩ := h.slot_free hp
        simp [hloop, hleave]
    case window =>
      intro hleave
      have hfails := h.window hleave
      simp only [hmet, hfails]
      omega
    case free =>
      intro hfree
      simp [hheld] at hfree
  · exact h

theorem bad (h : s.Sound) : s.bad.Sound := by
  unfold Shared.bad
  split
  · exact h
  · next hloop =>
    have hheld := h.held_meet hloop (e := .bad) nofun nofun
    have hslot := h.slot_held (h.held_of_loop (.inl hloop))
    refine ⟨h.running_meet rfl, ?_, fun hne => ?_, fun hfree => ?_⟩
    · simpa only [hheld, if_true] using hslot
    · dsimp only at hne
      omega
    · simp [hheld] at hfree

theorem good (h : s.Sound) : s.good.Sound := by
  unfold Shared.good
  split
  · exact h
  · next hloop =>
    have hheld := h.held_meet hloop (e := .good) nofun nofun
    have hslot := h.slot_held (h.held_of_loop (.inl hloop))
    refine ⟨h.running_meet rfl, ?_, fun _ => ?_, fun hfree => ?_⟩
    · simp only [hheld, if_true]
      omega
    · exact (s.proxy.fails_meet .good).trans (Nat.zero_min _).symm
    · simp [hheld] at hfree

theorem leave (h : s.Sound) : s.leave.Sound := by
  unfold Shared.leave
  split
  · exact h
  · next hleave =>
    have hslot := h.slot_held (h.held_of_loop (.inr hleave))
    have hfree : (s.proxy.meet .leave).health.probing = false := rfl
    refine ⟨h.running_meet rfl, ?_, fun hne => ?_, fun _ => ⟨0, Nat.zero_le _, h.window hleave⟩⟩
    · simp only [hfree, Bool.false_eq_true, if_false]
      omega
    · dsimp only at hne
      omega

theorem exchange (h : s.Sound) (message : Message) (transport : Transport) (timeout : Nat)
    (stop : Option Instant) (now : Instant) :
    (s.access (.exchange message transport timeout stop now)).Sound := by
  obtain ⟨hhealth, hstopped⟩ := s.proxy.exchange_health message transport timeout stop now
  constructor
  case running => exact hstopped.trans h.running
  case slot => simpa only [access, hhealth] using h.slot
  case window => simpa only [access, hhealth] using h.window
  case free => simpa only [access, hhealth] using h.free

theorem access (h : s.Sound) (a : Access) : (s.access a).Sound := by
  cases a with
  | exchange message transport timeout stop now =>
    exact h.exchange message transport timeout stop now
  | charge worker => exact h.charge worker
  | ask worker => exact h.ask worker
  | bad => exact h.bad
  | good => exact h.good
  | leave => exact h.leave

theorem after (h : s.Sound) (accesses : List Access) : (s.after accesses).Sound := by
  induction accesses generalizing s with
  | nil => exact h
  | cons a accesses ih => exact ih (h.access a)

end Sound

variable [Network ω]

theorem sound_registered (endpoint : Endpoint) (expire : UInt64) (overStream : Bool)
    (timeout : Nat) (interval : UInt64) (network : ω) :
    (registered endpoint expire overStream timeout interval network).Sound where
  running := rfl
  slot := rfl
  window hne := absurd rfl hne
  free _ := ⟨0, Nat.le_refl 0, rfl⟩

/-- When no worker is about to ask for its probe, a resolver that is down is being probed
exactly if the slot is held or no more failures than it may have were charged while the
last loop was about to end. -/
theorem probing_of_down_iff (endpoint : Endpoint) (expire : UInt64) (overStream : Bool)
    (timeout : Nat) (interval : UInt64) (network : ω) (accesses : List Access)
    {maxFails : UInt32} (hmax : maxFails ≠ 0) :
    let s := (registered endpoint expire overStream timeout interval network).after accesses
    s.asking = [] →
      ((Resolver.isDown maxFails s.proxy = true → s.proxy.health.probing = true) ↔
        s.proxy.health.probing = true ∨ min s.late Health.maxCount.toNat ≤ maxFails.toNat) := by
  intro s hquiet
  have hsound : s.Sound :=
    (sound_registered endpoint expire overStream timeout interval network).after accesses
  have hdown : Resolver.isDown maxFails s.proxy = true ↔
      maxFails.toNat < s.proxy.health.fails.toNat := Health.isDown_iff hmax
  cases hp : s.proxy.health.probing with
  | true => simp
  | false =>
    obtain ⟨k, hk, hfails⟩ := hsound.free hp
    have hzero : k = 0 := by simpa [hquiet] using hk
    rw [hdown, hfails, hzero, Nat.add_zero]
    simp only [Bool.false_eq_true, imp_false, false_or, Nat.not_lt]

/-- The far resolver when it is registered. -/
def remote : Shared Unreachable := { proxy := Rehearsal.far }

theorem probing_of_down_remote :
    (2 : UInt32) ≠ 0 ∧
    (remote.after [.charge 0, .charge 1, .ask 1, .bad, .ask 0]).asking = [] ∧
    (Resolver.isDown 2 (remote.after [.charge 0, .charge 1, .ask 1, .bad, .ask 0]).proxy = true →
      (remote.after [.charge 0, .charge 1, .ask 1, .bad, .ask 0]).proxy.health.probing = true) := by
  have hmax : (2 : UInt32) ≠ 0 := by decide
  have hquiet : (remote.after [.charge 0, .charge 1, .ask 1, .bad, .ask 0]).asking = [] := by decide
  have hremote : registered Rehearsal.far.endpoint 30 false 2000 500 ⟨⟩ = remote := rfl
  have hiff := probing_of_down_iff Rehearsal.far.endpoint 30 false 2000 500 Unreachable.mk
    [.charge 0, .charge 1, .ask 1, .bad, .ask 0] hmax
  rw [hremote] at hiff
  exact ⟨hmax, hquiet, (hiff hquiet).mpr (.inl (by decide))⟩

/-- Three failures are charged after the good probe and before its loop ends; then nobody
probes any more. -/
theorem remote_down_unprobed :
    let s := remote.after [.charge 0, .ask 0, .good, .charge 0, .ask 0, .charge 1, .ask 1,
      .charge 2, .ask 2, .leave]
    s.asking = [] ∧ Resolver.isDown 2 s.proxy = true ∧ s.proxy.health.probing = false := by
  decide

/-! ### Failures without a probe -/

theorem Calm.access {s : Shared ω} (h : s.Calm) {a : Access} (ha : ∀ worker, a ≠ .charge worker) :
    (s.access a).Calm ∧ (s.access a).proxy.health = s.proxy.health := by
  cases a with
  | exchange message transport timeout stop now =>
    exact ⟨⟨h.asking, h.looping, h.leaving⟩,
      (s.proxy.exchange_health message transport timeout stop now).1⟩
  | charge worker => exact absurd rfl (ha worker)
  | ask worker =>
    have hnone : s.access (.ask worker) = s := if_neg (by simp [h.asking])
    rw [hnone]
    exact ⟨h, rfl⟩
  | bad =>
    have hnone : s.access .bad = s := if_pos h.looping
    rw [hnone]
    exact ⟨h, rfl⟩
  | good =>
    have hnone : s.access .good = s := if_pos h.looping
    rw [hnone]
    exact ⟨h, rfl⟩
  | leave =>
    have hnone : s.access .leave = s := if_pos h.leaving
    rw [hnone]
    exact ⟨h, rfl⟩

/-- Without a further charge nothing becomes of a resolver that is not probed. -/
theorem Calm.after {s : Shared ω} (h : s.Calm) (accesses : List Access)
    (hcalm : ∀ a ∈ accesses, ∀ worker, a ≠ .charge worker) :
    (s.after accesses).proxy.health = s.proxy.health := by
  induction accesses generalizing s with
  | nil => rfl
  | cons a accesses ih =>
    obtain ⟨hnext, hhealth⟩ := h.access (hcalm a List.mem_cons_self)
    exact (ih hnext fun b hb => hcalm b (List.mem_cons_of_mem _ hb)).trans hhealth

/-- Failures charged while a loop is about to end, each with its lost request. -/
theorem after_late {s : Shared ω} (h : s.Sound) (hquiet : s.asking = []) (hleave : s.leaving ≠ 0)
    (n : Nat) :
    let t := s.after (List.replicate n [.charge 0, .ask 0]).flatten
    t.asking = [] ∧ t.leaving = s.leaving ∧ t.late = s.late + n := by
  induction n generalizing s with
  | zero => exact ⟨hquiet, rfl, rfl⟩
  | succ n ih =>
    have hnext := (h.access (.charge 0)).access (.ask 0)
    have hasking : ((s.access (.charge 0)).access (.ask 0)).asking = [] := by
      simp [Shared.access, Shared.charge, Shared.ask, hquiet]
    have hleaving : ((s.access (.charge 0)).access (.ask 0)).leaving = s.leaving := by
      simp [Shared.access, Shared.charge, Shared.ask, hquiet]
    have hlate : ((s.access (.charge 0)).access (.ask 0)).late = s.late + 1 := by
      simp [Shared.access, Shared.charge, Shared.ask, hquiet, hleave]
    obtain ⟨ha, hl, hn⟩ := ih hnext hasking (hleaving ▸ hleave)
    rw [hleaving] at hl
    rw [hlate, Nat.add_assoc, Nat.add_comm 1 n] at hn
    exact ⟨ha, hl, hn⟩

theorem after_append (s : Shared ω) (accesses more : List Access) :
    s.after (accesses ++ more) = (s.after accesses).after more := List.foldl_append

/-- Whatever the number of failures that a resolver may have, in some order of accesses it
ends up down, with no worker about to ask for a probe and no loop to make one; and so it
stays, since queries are not sent to it any more. -/
theorem exists_unprobed (endpoint : Endpoint) (expire : UInt64) (overStream : Bool)
    (timeout : Nat) (interval : UInt64) (network : ω) {maxFails : UInt32} (hmax : maxFails ≠ 0)
    (hlt : maxFails < Health.maxCount) :
    ∃ accesses,
      let s := (registered endpoint expire overStream timeout interval network).after accesses
      s.asking = [] ∧ Resolver.isDown maxFails s.proxy = true ∧ s.proxy.health.probing = false ∧
        ∀ more : List Access, (∀ a ∈ more, ∀ worker, a ≠ .charge worker) →
          (s.after more).proxy.health = s.proxy.health := by
  -- the loop has its good probe; the failures come before it ends
  let first := (registered endpoint expire overStream timeout interval network).after
    [.charge 0, .ask 0, .good]
  let second := first.after (List.replicate (maxFails.toNat + 1) [.charge 0, .ask 0]).flatten
  have hfirst : first.Sound :=
    (sound_registered endpoint expire overStream timeout interval network).after _
  obtain ⟨hasking, hleaving, hlate⟩ : second.asking = [] ∧ second.leaving = 1 ∧
      second.late = 0 + (maxFails.toNat + 1) :=
    after_late hfirst rfl Nat.one_ne_zero (maxFails.toNat + 1)
  have hsecond : second.Sound := hfirst.after _
  have hlast : second.leave.Sound := hsecond.leave
  have hne : second.leaving ≠ 0 := by omega
  have hleave : second.leave.asking = [] ∧ second.leave.proxy = second.proxy.meet .leave := by
    simp [Shared.leave, hne, hasking]
  have hfree : second.leave.proxy.health.probing = false := by
    rw [hleave.2]
    rfl
  have hfails : second.leave.proxy.health.fails.toNat = min second.late Health.maxCount.toNat := by
    rw [hleave.2]
    exact hsecond.window hne
  refine ⟨[.charge 0, .ask 0, .good] ++
    (List.replicate (maxFails.toNat + 1) [.charge 0, .ask 0]).flatten ++ [.leave], ?_⟩
  rw [after_append, after_append]
  refine ⟨hleave.1, (Health.isDown_iff hmax).mpr ?_, hfree,
    fun more hmore => (hlast.calm hleave.1 hfree).after more hmore⟩
  have hroom : maxFails.toNat < Health.maxCount.toNat := UInt32.lt_iff_toNat_lt.mp hlt
  have hdown : maxFails.toNat < second.leave.proxy.health.fails.toNat := by
    rw [hfails, hlate]
    omega
  exact hdown

end Shared

end DnsFanout
