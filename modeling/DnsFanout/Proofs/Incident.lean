import DnsFanout.Net.Unreachable
import DnsFanout.Proofs.Health
import Mathlib.Data.List.Induction

/-! What happens to a resolver over its life, one access at a time: by the workers of any number
of queries, by its probe loops and by the forwarder that it belongs to. -/

namespace DnsFanout

open Net

/-- A query or a probe is sent, a failure is charged, a probe is asked for, is bad or good, a loop
leaves, or the resolver is started or shut. -/
inductive Incident
  | attempt (now : Instant) (scope : Scope) (request : Request) (preference : Preference)
  | charge
  | ask
  | probe (id : UInt16) (now : Instant)
  | bad
  | good
  | leave
  | start (interval : UInt64)
  | shut (now : Instant)

namespace Incident

def counts : Incident → Bool
  | charge | bad => true
  | _ => false

def clears : Incident → Bool
  | good => true
  | _ => false

def shuts : Incident → Bool
  | shut _ => true
  | _ => false

end Incident

/-- What is held against a resolver: the failures charged and the failed probes since the last
good probe. -/
def strikes (history : List Incident) : Nat :=
  (history.reverse.takeWhile (!·.clears)).countP Incident.counts

theorem strikes_concat (history : List Incident) (e : Incident) :
    strikes (history ++ [e]) =
      if e.clears then 0 else strikes history + if e.counts then 1 else 0 := by
  rw [strikes, List.reverse_concat, List.takeWhile_cons]
  by_cases hclears : e.clears
  · simp [hclears]
  · simp [hclears, List.countP_cons, strikes]

theorem strikes_append {more : List Incident} (h : ∀ e ∈ more, e.clears = false)
    (history : List Incident) :
    strikes (history ++ more) = strikes history + more.countP Incident.counts := by
  induction more using List.reverseRecOn with
  | nil => simp
  | append_singleton more e ih =>
    have hlast : e.clears = false := h e (by simp)
    have hmore := ih fun x hx => h x (List.mem_append_left _ hx)
    rw [← List.append_assoc, strikes_concat, hmore, List.countP_append, List.countP_singleton,
      hlast, Nat.add_assoc]
    rfl

namespace Proxy

variable {ω : Type}

theorem requestProbe_eq (p : Proxy ω) : p.requestProbe =
    if p.stopped = false ∧ p.health.probing = false then
      { p with health := { p.health with probing := true } }
    else p := by
  unfold requestProbe Health.beginProbe?
  cases hstopped : p.stopped with
  | true => rfl
  | false =>
    cases hprobing : p.health.probing with
    | true => rfl
    | false => rfl

theorem fails_requestProbe (p : Proxy ω) : p.requestProbe.health.fails = p.health.fails := by
  rw [requestProbe_eq]
  split <;> rfl

variable [Network ω]

def sendProbe (id : UInt16) (now : Instant) (p : Proxy ω) : Answered × Proxy ω :=
  p.exchange (Message.probe id) (if p.probesOverStream then .stream else .datagram) p.readTimeout
    none now

def meet (p : Proxy ω) : Incident → Proxy ω
  | .attempt now scope request preference => (p.attempt now scope request preference).2
  | .charge => p.recordFailure
  | .ask => p.requestProbe
  | .probe id now => (p.sendProbe id now).2
  | .bad => { p with health := p.health.markFailed }
  | .good => { p with health := p.health.markHealthy }
  | .leave => p.leave
  | .start interval => { p with health := p.health.setInterval interval }
  | .shut now => p.stop now

def after (p : Proxy ω) (history : List Incident) : Proxy ω := history.foldl meet p

@[simp] theorem after_nil (p : Proxy ω) : p.after [] = p := rfl

theorem after_append (p : Proxy ω) (history more : List Incident) :
    p.after (history ++ more) = (p.after history).after more := List.foldl_append

theorem after_concat (p : Proxy ω) (history : List Incident) (e : Incident) :
    p.after (history ++ [e]) = (p.after history).meet e := p.after_append history [e]

variable (p : Proxy ω)

theorem health_attempt (now : Instant) (scope : Scope) (request : Request)
    (preference : Preference) :
    (p.meet (.attempt now scope request preference)).health = p.health ∧
      (p.meet (.attempt now scope request preference)).stopped = p.stopped := exchange_health ..

theorem health_probe (id : UInt16) (now : Instant) :
    (p.meet (.probe id now)).health = p.health ∧
      (p.meet (.probe id now)).stopped = p.stopped := exchange_health ..

def outcome (id : UInt16) : Answered → List Incident
  | none => []
  | some (result, _) => match judge id result with
    | .ok () => [.good, .leave]
    | .error _ => [.bad]

theorem probe_eq_after (id : UInt16) (now : Instant) :
    (p.probe id now).2 = p.after (.probe id now :: outcome id (p.sendProbe id now).1) := by
  rcases hsent : p.sendProbe id now with ⟨done, p'⟩
  have hexchange := hsent
  unfold sendProbe at hexchange
  rw [after, List.foldl_cons, meet, hsent, probe, hexchange]
  rcases done with _ | ⟨result, finished⟩
  · rfl
  · cases hjudge : judge id result <;> simp [outcome, hjudge, meet, leave]

/-- One incident: a failure more, unless the counter is at its end, none any more, or as many as
before. -/
theorem fails_meet (e : Incident) : (p.meet e).health.fails.toNat =
    if e.clears then 0
    else min (p.health.fails.toNat + if e.counts then 1 else 0) Health.maxCount.toNat := by
  have hlt : p.health.fails.toNat < 4294967296 := p.health.fails.toNat_lt
  have hkept : p.health.fails.toNat = min (p.health.fails.toNat + 0) Health.maxCount.toNat :=
    (Nat.min_eq_left (Nat.le_of_lt_succ hlt)).symm
  cases e with
  | attempt now scope request preference =>
    rw [(p.health_attempt now scope request preference).1]
    exact hkept
  | charge => exact p.health.fails_markFailed
  | ask => exact (congrArg UInt32.toNat p.fails_requestProbe).trans hkept
  | probe id now =>
    rw [(p.health_probe id now).1]
    exact hkept
  | bad => exact p.health.fails_markFailed
  | good => rfl
  | leave => exact hkept
  | start interval => exact hkept
  | shut now => exact hkept

theorem probing_meet {e : Incident} (hask : e ≠ .ask) (hleave : e ≠ .leave) :
    (p.meet e).health.probing = p.health.probing := by
  cases e with
  | attempt now scope request preference =>
    rw [(p.health_attempt now scope request preference).1]
  | probe id now => rw [(p.health_probe id now).1]
  | charge | bad => exact p.health.probing_markFailed
  | ask => exact absurd rfl hask
  | leave => exact absurd rfl hleave
  | _ => rfl

theorem interval_meet {e : Incident} (hstart : ∀ interval, e ≠ .start interval) :
    (p.meet e).health.interval = p.health.interval := by
  have hmark : p.health.markFailed.interval = p.health.interval := by
    unfold Health.markFailed
    split <;> rfl
  cases e with
  | attempt now scope request preference =>
    rw [(p.health_attempt now scope request preference).1]
  | probe id now => rw [(p.health_probe id now).1]
  | charge | bad => exact hmark
  | ask =>
    rw [meet, requestProbe_eq]
    split <;> rfl
  | start interval => exact absurd rfl (hstart interval)
  | _ => rfl

theorem stopped_meet (e : Incident) : (p.meet e).stopped = (p.stopped || e.shuts) := by
  have hkept : p.stopped = (p.stopped || false) := (Bool.or_false _).symm
  cases e with
  | attempt now scope request preference =>
    rw [(p.health_attempt now scope request preference).2]
    exact hkept
  | probe id now =>
    rw [(p.health_probe id now).2]
    exact hkept
  | ask =>
    rw [meet, requestProbe_eq]
    split <;> exact hkept
  | shut now => exact (Bool.or_true _).symm
  | _ => exact hkept

theorem probing_ask (hrunning : p.stopped = false) : (p.meet .ask).health.probing = true := by
  rw [meet, requestProbe_eq]
  split
  · rfl
  · next hfree => simpa [hrunning] using hfree

/-- What a new resolver counts over a history: all that is held against it, as far as the counter
goes. -/
theorem fails_after {p : Proxy ω} (hnew : p.health.fails = 0) (history : List Incident) :
    (p.after history).health.fails.toNat = min (strikes history) Health.maxCount.toNat := by
  induction history using List.reverseRecOn with
  | nil =>
    rw [after_nil, hnew]
    rfl
  | append_singleton history e ih =>
    rw [after_concat, fails_meet, ih, strikes_concat]
    split
    · rfl
    · omega

end Proxy

/-- A new resolver of the documentation network, on a host whose links are down. -/
def Rehearsal.far : Proxy Unreachable :=
  .ofEndpoint (.plain ⟨.v4 ⟨192, 0, 2, 1⟩, 53⟩) 30 false ⟨⟩

end DnsFanout
