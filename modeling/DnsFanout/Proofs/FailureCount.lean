import DnsFanout.Proofs.Correlation
import DnsFanout.Proofs.Deadline
import DnsFanout.Proofs.Incident

/-! The counter of a resolver and the queries that it gets, over a whole life. A forwarder asks a
resolver as long as no more is held against it than its limit; the counter stops at its maximum,
which no limit below that can tell. -/

namespace DnsFanout

open Net Worker

namespace Worker

def Deed.incident? (scope : Scope) (request : Request) : Instant × Deed → Option Incident
  | (now, sent preference) => some (.attempt now scope request preference)
  | (_, heard _) => none
  | (_, charged) => some .charge
  | (_, asked) => some .ask

def incidents (scope : Scope) (request : Request) (entries : List (Instant × Deed)) :
    List Incident :=
  entries.filterMap (Deed.incident? scope request)

variable {scope : Scope} {request : Request}

theorem replay_eq_after {ω : Type} [Network ω] (p : Proxy ω) (entries : List (Instant × Deed)) :
    replay scope request p entries = p.after (incidents scope request entries) := by
  induction entries generalizing p with
  | nil => rfl
  | cons entry entries ih =>
    have hreplay := ih (Deed.apply scope request p entry)
    obtain ⟨now, deed⟩ := entry
    cases deed with
    | _ => exact hreplay

theorem clears_incidents (entries : List (Instant × Deed)) :
    ∀ e ∈ incidents scope request entries, e.clears = false := by
  intro e he
  obtain ⟨⟨now, deed⟩, -, hdeed⟩ := List.mem_filterMap.mp he
  cases deed with
  | heard result => cases hdeed
  | _ =>
    cases hdeed
    rfl

theorem countP_incidents (entries : List (Instant × Deed)) :
    (incidents scope request entries).countP Incident.counts =
      entries.countP (·.2.isCharge) := by
  rw [incidents, List.countP_filterMap]
  refine List.countP_congr fun entry _ => ?_
  obtain ⟨now, deed⟩ := entry
  cases deed <;> exact Iff.rfl

variable {ρ : Type} [Resolver ρ] {maxFails : UInt32}

theorem charged_of_success {w : Worker} {cancelled expired charged : Bool}
    {result : Except Failure Message} {reply : Message}
    (h : w.observe request maxFails cancelled expired result = .done charged (.success reply)) :
    result = .ok reply ∧ charged = false := by
  obtain ⟨rfl, -⟩ := observe_eq_success h
  cases charged with
  | false => exact ⟨rfl, rfl⟩
  | true =>
    obtain ⟨cause, hcause⟩ := error_of_charges (congrArg Next.charges h)
    cases hcause

/-- A worker that succeeds is at its end with the reply: nothing is charged after it. -/
theorem entries_of_success {w : Worker} {now : Instant} {r : ρ} {log : Log ρ}
    (h : logged maxFails scope request w now r = some log) {reply : Message}
    (hend : log.ending = .settled (.success reply)) :
    ∃ before t, log.entries = before ++ [(t, .heard (.ok reply))] := by
  revert hend
  refine logged_induction
    (motive := fun _ _ _ log => log.ending = .settled (.success reply) →
      ∃ before t, log.entries = before ++ [(t, .heard (.ok reply))])
    ?crashed ?again ?charged ?done w now r log h
  case crashed =>
    intro w now t r r' detail ha hend
    cases hend
  case again =>
    intro w w' now t r r' result log ha ho ih hend
    obtain ⟨before, u, hentries⟩ := ih hend
    refine ⟨w.opening scope now ++ [(t, .heard result)] ++ before, u, ?_⟩
    rw [Log.after, hentries, List.append_assoc _ before]
  case charged =>
    intro w w' now t r r' result log ha ho ih hend
    obtain ⟨before, u, hentries⟩ := ih hend
    refine ⟨w.opening scope now ++ [(t, .heard result)] ++ charging maxFails t ++ before, u, ?_⟩
    rw [Log.after, hentries, List.append_assoc _ before]
  case done =>
    intro w now t r r' result charged outcome ha ho hend
    cases hend
    obtain ⟨rfl, rfl⟩ := charged_of_success ho
    exact ⟨w.opening scope now, t, List.append_nil _⟩

end Worker

namespace Forwarder

variable {ρ η : Type} [Resolver ρ] {f : Forwarder ρ η} {k : Nat} {r : ρ}

def Asks (f : Forwarder ρ η) (k : Nat) : Prop := k ∈ f.crew.posts.map Post.place

theorem asks_iff (h : f.resolvers[k]? = some r) :
    f.Asks k ↔ Resolver.isDown f.maxFails r = false := by
  rw [Asks, places_crew, mem_live_places]
  constructor
  · rintro ⟨r', hr', hdown⟩
    rw [h] at hr'
    cases hr'
    exact hdown
  · exact fun hdown => ⟨r, h, hdown⟩

theorem resolvers_forward {now : Instant} {scope : Scope} {request : Request}
    {done : FanOut ρ η} (h : f.forward now scope request = some done)
    (hk : f.resolvers[k]? = some r) :
    (f.Asks k → ∃ log, logged f.maxFails scope request f.fresh now r = some log ∧
      done.forwarder.resolvers[k]? = some log.resolver) ∧
    (¬f.Asks k → done.forwarder.resolvers[k]? = some r) := by
  rw [forward_eq] at h
  obtain ⟨logs, hlogs, rfl⟩ := Option.map_eq_some_iff.mp h
  have halone := alone_of_logs hlogs
  have hplaces : f.Asks k ↔ k ∈ logs.map Prod.snd := by
    rw [Asks, halone.places_perm.mem_iff]
  constructor
  · intro hasks
    obtain ⟨x, hx, rfl⟩ := List.mem_map.mp (hplaces.mp hasks)
    obtain ⟨r', hr', hlog, -⟩ := halone.logged x hx
    rw [hk] at hr'
    cases hr'
    exact ⟨x.1, hlog, getElem?_restore halone.nodup hx (List.getElem?_eq_some_iff.mp hk).1⟩
  · intro hasks
    rw [restore_runs, getElem?_foldl_set_other (hasks ∘ hplaces.mpr)]
    exact hk

end Forwarder

variable {ω : Type} [Network ω] {p : Proxy ω} {history : List Incident}

/-- How the log of a worker goes on with the history of its resolver. -/
structure Worker.Log.Continues (log : Log (Proxy ω)) (scope : Scope) (request : Request)
    (p : Proxy ω) (history : List Incident) : Prop where
  resolver : log.resolver = p.after (history ++ incidents scope request log.entries)
  strikes : strikes (history ++ incidents scope request log.entries) =
    strikes history + log.entries.countP (·.2.isCharge)
  success : ∀ reply, log.ending = .settled (.success reply) →
    ∃ before t, log.entries = before ++ [(t, .heard (.ok reply))]

theorem Worker.continues_of_logged {maxFails : UInt32} {scope : Scope} {request : Request}
    {w : Worker} {now : Instant} {log : Log (Proxy ω)}
    (h : logged maxFails scope request w now (p.after history) = some log) :
    log.Continues scope request p history where
  resolver := by rw [resolver_logged h, replay_eq_after, Proxy.after_append]
  strikes := by rw [strikes_append (clears_incidents log.entries), countP_incidents]
  success _ hend := entries_of_success h hend

/-- The counter of a resolver after a history, and what forwarders make of it that have the
resolver at a place. -/
structure Proxy.Accords (p : Proxy ω) (history : List Incident) : Prop where
  count : (p.after history).health.fails.toNat = min (strikes history) Health.maxCount.toNat
  asked : ∀ {η : Type} (f : Forwarder (Proxy ω) η) (k : Nat),
    f.resolvers[k]? = some (p.after history) → 0 < f.maxFails → f.maxFails < Health.maxCount →
    (f.Asks k ↔ strikes history ≤ f.maxFails.toNat)
  always : ∀ {η : Type} (f : Forwarder (Proxy ω) η) (k : Nat),
    f.resolvers[k]? = some (p.after history) → f.maxFails = 0 → f.Asks k
  /-- Beyond the limit it is not asked any more, until a probe is good. -/
  spared : ∀ {η : Type} (f : Forwarder (Proxy ω) η) (k : Nat) (more : List Incident),
    (∀ e ∈ more, e.clears = false) → f.resolvers[k]? = some (p.after (history ++ more)) →
    0 < f.maxFails → f.maxFails < Health.maxCount → f.maxFails.toNat < strikes history →
    ¬f.Asks k
  sent : ∀ {η : Type} (f : Forwarder (Proxy ω) η) (k : Nat) (now : Instant) (scope : Scope)
    (request : Request) (done : Forwarder.FanOut (Proxy ω) η),
    f.resolvers[k]? = some (p.after history) → f.forward now scope request = some done →
    (f.Asks k → ∃ log, logged f.maxFails scope request f.fresh now (p.after history) = some log ∧
      done.forwarder.resolvers[k]? = some log.resolver ∧
      log.Continues scope request p history) ∧
    (¬f.Asks k → done.forwarder.resolvers[k]? = some (p.after history))

theorem Forwarder.asks_iff_strikes {η : Type} (hnew : p.health.fails = 0)
    {f : Forwarder (Proxy ω) η} {k : Nat} (hk : f.resolvers[k]? = some (p.after history))
    (hpos : 0 < f.maxFails) (hmax : f.maxFails < Health.maxCount) :
    f.Asks k ↔ strikes history ≤ f.maxFails.toNat := by
  have hne : f.maxFails ≠ 0 := (UInt32.ne_of_lt hpos).symm
  -- a counter at its maximum is above the limit, as the strikes that it stands for are
  have hlt : f.maxFails.toNat < Health.maxCount.toNat := UInt32.lt_iff_toNat_lt.mp hmax
  have hcount := Proxy.fails_after hnew history
  have hdown : Resolver.isDown f.maxFails (p.after history) = true ↔
      f.maxFails.toNat < (p.after history).health.fails.toNat := Health.isDown_iff hne
  rw [asks_iff hk, ← Bool.not_eq_true, hdown, hcount]
  omega

/-- Whatever happened to a resolver and in whatever order, its counter and the queries that it
gets go by what is held against it. -/
theorem Proxy.accords_of_new (hnew : p.health.fails = 0) (history : List Incident) :
    p.Accords history := by
  constructor
  case count => exact fails_after hnew history
  case asked => exact fun f k hk hpos hmax => Forwarder.asks_iff_strikes hnew hk hpos hmax
  case always =>
    intro η f k hk hzero
    rw [Forwarder.asks_iff hk, hzero]
    rfl
  case spared =>
    intro η f k more hmore hk hpos hmax hdown hasks
    have hfew := (Forwarder.asks_iff_strikes hnew hk hpos hmax).mp hasks
    rw [strikes_append hmore] at hfew
    omega
  case sent =>
    intro η f k now scope request done hk hdone
    obtain ⟨hasked, hspared⟩ := Forwarder.resolvers_forward hdone hk
    refine ⟨fun hasks => ?_, hspared⟩
    obtain ⟨log, hlog, hresolver⟩ := hasked hasks
    exact ⟨log, hlog, hresolver, continues_of_logged hlog⟩

namespace Rehearsal

/-- A forwarder to that resolver as a history left it; it may have two failures. -/
def toFar (history : List Incident) : Forwarder (Proxy Unreachable) Unit where
  resolvers := [far.after history]
  rotation := .sequential

/-- Down after two failures and a failed probe, and up after a good one. -/
theorem accords_far :
    far.health.fails = 0 ∧ far.Accords [.charge, .ask, .bad, .charge] ∧
    ¬(toFar [.charge, .ask, .bad, .charge]).Asks 0 ∧
    (toFar [.charge, .ask, .bad, .charge, .good]).Asks 0 := by
  have hdown := Proxy.accords_of_new (p := far) rfl [.charge, .ask, .bad, .charge]
  have hup := Proxy.accords_of_new (p := far) rfl [.charge, .ask, .bad, .charge, .good]
  refine ⟨rfl, hdown, fun hasks => ?_, ?_⟩
  · exact absurd ((hdown.asked (toFar _) 0 rfl (by decide) (by decide)).mp hasks) (by decide)
  · exact (hup.asked (toFar _) 0 rfl (by decide) (by decide)).mpr (by decide)

end Rehearsal

end DnsFanout
