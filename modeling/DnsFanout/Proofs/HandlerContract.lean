import DnsFanout.Proofs.Noninterference

/-! What a handler owes its caller: with a code it has written one reply, with a failure
none. A forwarder keeps to it as well, except that a reply which the sink refuses goes
unnoticed. -/

namespace DnsFanout

/-- The sink took one reply if there is a code, and nothing if there is none. -/
structure Handled.Kept {η : Type} (sink : Sink) (done : Handled η) : Prop where
  replied : ∀ code, done.code = .ok code → ∃ m, sink [] m = none ∧ done.written = [m]
  failed : ∀ cause, done.code = .error cause → done.written = []

/-- A handler that keeps to it whenever it is done. -/
def Handler.Obeys {η : Type} [Handler η] (handler : η) : Prop :=
  ∀ now scope sink request done,
    Handler.process now scope sink request handler = some done → done.Kept sink

namespace Handled

variable {η : Type} {sink : Sink}

theorem kept_error (cause : Failure) (finished : Instant) (handler : η) :
    (⟨.error cause, [], finished, handler⟩ : Handled η).Kept sink :=
  ⟨nofun, fun _ _ => rfl⟩

/-- A reply that is offered counts only if the sink takes it. -/
theorem kept_offer {code : ResponseCode} {reply : Message} {finished : Instant} {handler : η} :
    (⟨.ok code, sink.offer [] reply, finished, handler⟩ : Handled η).Kept sink ↔
      sink [] reply = none := by
  constructor
  · intro h
    obtain ⟨m, -, hwritten⟩ := h.replied code rfl
    cases hreply : sink [] reply with
    | none => rfl
    | some cause => simp [Sink.offer, hreply] at hwritten
  · intro hreply
    refine ⟨fun _ _ => ⟨reply, hreply, ?_⟩, nofun⟩
    simp [Sink.offer, hreply]

/-- The handler for the next query does not matter. -/
theorem Kept.congr {θ : Type} {done : Handled η} (h : done.Kept sink) (handler : θ) :
    ({ done with handler } : Handled θ).Kept sink :=
  ⟨h.replied, h.failed⟩

end Handled

/-! ### Counting -/

/-- Something that is called, and how often it was. -/
structure Counted (α : Type) where
  inner : α
  calls : Nat

variable {ρ η : Type} [DnsFanout.Resolver ρ] [DnsFanout.Handler η]

instance : Resolver (Counted ρ) where
  address r := Resolver.address r.inner
  isDown maxFails r := Resolver.isDown maxFails r.inner
  attempt now scope request preference r :=
    let (ended, inner) := Resolver.attempt now scope request preference r.inner
    (ended, ⟨inner, r.calls + 1⟩)
  recordFailure r := { r with inner := Resolver.recordFailure r.inner }
  requestProbe r := { r with inner := Resolver.requestProbe r.inner }
  start interval r := { r with inner := Resolver.start interval r.inner }
  stop now r := { r with inner := Resolver.stop now r.inner }

instance : Handler (Counted η) where
  name h := Handler.name h.inner
  process now scope sink request h :=
    (Handler.process now scope sink request h.inner).map fun done =>
      { done with handler := ⟨done.handler, h.calls + 1⟩ }

namespace Forwarder

omit [Resolver ρ] [Handler η]

/-- A forwarder that counts: the attempts at each resolver, and the calls of the handler
after it. -/
def counted (attempts calls : Nat) (f : Forwarder ρ η) : Forwarder (Counted ρ) (Counted η) :=
  { f with resolvers := f.resolvers.map (⟨·, attempts⟩), next := f.next.map (⟨·, calls⟩) }

end Forwarder

/-! ### The forwarder -/

namespace Forwarder

variable {f : Forwarder ρ η} {now : Instant} {scope : Scope} {sink : Sink} {request : Request}
  {done : Handled (Forwarder ρ η)}

theorem process_admitted (h : f.admission.admitsRequest request = true) :
    f.process now scope sink request = (f.forward now scope request).map fun fan =>
      match fan.result with
      | .ok reply => ⟨.ok ResponseCode.noError, sink.offer [] reply, fan.finished, fan.forwarder⟩
      | .error cause => ⟨.error cause, [], fan.finished, fan.forwarder⟩ := by
  rw [process, if_pos h, Option.map_eq_bind]
  rfl

theorem process_delegated {next : η} (h : f.admission.admitsRequest request = false)
    (hnext : f.next = some next) :
    f.process now scope sink request = (Handler.process now scope sink request next).map fun done =>
      { done with handler := { f with next := some done.handler } } := by
  rw [process, if_neg (by simp [h]), hnext, Option.map_eq_bind]
  rfl

theorem process_unhandled (h : f.admission.admitsRequest request = false) (hnext : f.next = none) :
    f.process now scope sink request = some ⟨.error (.noNextHandler name), [], now, f⟩ := by
  rw [process, if_neg (by simp [h]), hnext]

/-- A query that is not admitted is not sent to any resolver, and the handler after the
forwarder is called once. -/
theorem process_counted (h : f.admission.admitsRequest request = false) :
    (f.counted 0 0).process now scope sink request =
      (f.process now scope sink request).map fun done =>
        { done with handler := done.handler.counted 0 1 } := by
  cases hnext : f.next with
  | none =>
    have hcounted : (f.counted 0 0).next = none := congrArg (Option.map _) hnext
    rw [process_unhandled h hnext, process_unhandled (f := f.counted 0 0) h hcounted]
    simp [counted, hnext]
  | some next =>
    have hcounted : (f.counted 0 0).next = some ⟨next, 0⟩ := congrArg (Option.map _) hnext
    rw [process_delegated h hnext, process_delegated (f := f.counted 0 0) h hcounted]
    show ((Handler.process now scope sink request next).map _).map _ = _
    rw [Option.map_map, Option.map_map]
    rfl

theorem kept_of_delegated (hnext : ∀ next, f.next = some next → Handler.Obeys next)
    (hadmits : f.admission.admitsRequest request = false)
    (h : f.process now scope sink request = some done) : done.Kept sink := by
  cases hf : f.next with
  | none =>
    rw [process_unhandled hadmits hf] at h
    cases h
    exact Handled.kept_error _ _ _
  | some next =>
    rw [process_delegated hadmits hf] at h
    obtain ⟨handled, hhandled, rfl⟩ := Option.map_eq_some_iff.mp h
    exact (hnext next hf now scope sink request handled hhandled).congr _

/-- What becomes of an admitted query: the merged reply is offered to the sink, and its
refusal is the one way to fall short. -/
theorem kept_of_admitted (hadmits : f.admission.admitsRequest request = true)
    (h : f.process now scope sink request = some done) :
    ∃ fan, f.forward now scope request = some fan ∧
      (∀ cause, done.code = .error cause → done.written = []) ∧
      (done.Kept sink ↔ ∀ reply, fan.result = .ok reply → sink [] reply = none) := by
  rw [process_admitted hadmits] at h
  obtain ⟨fan, hfan, rfl⟩ := Option.map_eq_some_iff.mp h
  refine ⟨fan, hfan, ?_⟩
  cases hresult : fan.result with
  | error cause => simp [Handled.kept_error]
  | ok reply => simp [Handled.kept_offer]

/-- A forwarder does what it owes, except when the sink refuses the reply to an admitted query:
that reply is lost, and there is a code all the same. A query that is not admitted goes to no
resolver, and once to the handler after the forwarder. -/
theorem kept_iff (hnext : ∀ next, f.next = some next → Handler.Obeys next)
    (h : f.process now scope sink request = some done) :
    (done.Kept sink ↔ ¬∃ fan reply cause, f.admission.admitsRequest request = true ∧
      f.forward now scope request = some fan ∧ fan.result = .ok reply ∧
        sink [] reply = some cause) ∧
    (∀ cause, done.code = .error cause → done.written = []) ∧
    (f.admission.admitsRequest request = false →
      (f.counted 0 0).process now scope sink request =
        some { done with handler := done.handler.counted 0 1 } ∧
      (f.next = none → done.code = .error (.noNextHandler "forward"))) := by
  cases hadmits : f.admission.admitsRequest request with
  | false =>
    have hkept := kept_of_delegated hnext hadmits h
    refine ⟨by simp [hkept], hkept.failed, fun _ => ⟨?_, fun hf => ?_⟩⟩
    · rw [process_counted hadmits, h]
      rfl
    · rw [process_unhandled hadmits hf] at h
      cases h
      rfl
  | true =>
    obtain ⟨fan, hfan, hfailed, hkept⟩ := kept_of_admitted hadmits h
    refine ⟨hkept.trans ?_, hfailed, fun hfalse => by cases hfalse⟩
    constructor
    · rintro htaken ⟨_, reply, cause, -, hfan', hreply, hrefused⟩
      cases hfan.symm.trans hfan'
      cases (htaken reply hreply).symm.trans hrefused
    · intro hlost reply hreply
      cases hsink : sink [] reply with
      | none => rfl
      | some cause => exact absurd ⟨fan, reply, cause, rfl, hfan, hreply, hsink⟩ hlost

end Forwarder

namespace Rehearsal

/-- Scripted handlers that write a reply obey: a refusal is told. -/
theorem Handler.obeys {handler : Handler} (h : ∀ rcode, handler ≠ .silent rcode) :
    DnsFanout.Handler.Obeys handler := by
  intro now scope sink request done hdone
  obtain rfl : handler.process now sink request = done := Option.some.inj hdone
  unfold Handler.process
  split
  · exact Handled.kept_error _ _ _
  · next hplan =>
    cases handler with
    | silent rcode => exact absurd rfl (h rcode)
    | _ => cases hplan
  · next message _ =>
    split
    · next htaken => exact ⟨fun _ _ => ⟨message, htaken, rfl⟩, nofun⟩
    · exact Handled.kept_error _ _ _

def exampleLabel : Label := ⟨[101, 120, 97, 109, 112, 108, 101], by decide, by decide⟩

/-- Names under `example` are forwarded, any other query is refused. -/
def delegating : Forwarder Resolver Handler where
  resolvers := [answering]
  rotation := .sequential
  admission := { zone := ⟨[exampleLabel], true, by decide⟩ }
  next := some (.records (.ofNat 5) false 0 0)

/-- Refusing by a handler that does what it owes, a query outside the zone. -/
theorem kept_delegating :
    (∀ next, delegating.next = some next → DnsFanout.Handler.Obeys next) ∧
    ∃ done, delegating.process 0 {} Sink.taking rootQuery = some done ∧
      done.code = .ok (.ofNat 5) ∧ done.Kept Sink.taking ∧
      (delegating.counted 0 0).process 0 {} Sink.taking rootQuery =
        some { done with handler := done.handler.counted 0 1 } := by
  have hnext : ∀ next, delegating.next = some next → DnsFanout.Handler.Obeys next := by
    rintro _ ⟨⟩
    exact Handler.obeys nofun
  have hadmits : delegating.admission.admitsRequest rootQuery = false := by decide
  obtain ⟨done, hdone, hcode⟩ : ∃ done,
      delegating.process 0 {} Sink.taking rootQuery = some done ∧ done.code = .ok (.ofNat 5) :=
    ⟨_, Forwarder.process_delegated hadmits rfl, rfl⟩
  obtain ⟨hkept, -, hcounted⟩ := Forwarder.kept_iff hnext hdone
  exact ⟨hnext, done, hdone, hcode, hkept.mpr (by simp [hadmits]), (hcounted hadmits).1⟩

def solitary (r : Resolver) : Forwarder Resolver Handler where
  resolvers := [r]
  rotation := .sequential

theorem forward_solitary {r r' : Resolver} {m : Message} {t : Instant}
    (hup : r.isDown (solitary r).maxFails = false)
    (hrun : Worker.run (solitary r).maxFails {} rootQuery (solitary r).fresh 0 r =
      some ⟨.settled (.success m), t, r'⟩) :
    ∃ fan, (solitary r).forward 0 {} rootQuery = some fan ∧ fan.result = merge [.success m] := by
  have hlive : (solitary r).live = [(r, 0)] := List.filter_cons_of_pos (congrArg not hup)
  exact ⟨_, Forwarder.forward_lone hlive hrun, rfl⟩

/-- The only resolver answers, the sink refuses the reply, and the code is that of success. -/
theorem lost_solitary : ∃ done,
    (solitary answering).process 0 {} (fun _ _ => some .timeout) rootQuery = some done ∧
      done.code = .ok ResponseCode.noError ∧ done.written = [] ∧
      ¬done.Kept fun _ _ => some .timeout := by
  obtain ⟨fan, hfan, hresult⟩ := forward_solitary (r := answering) rfl (Worker.run_of_done rfl rfl)
  have hadmits : (solitary answering).admission.admitsRequest rootQuery = true := by decide
  have hmerged : fan.result = .ok rootAnswer := hresult
  have hprocess : (solitary answering).process 0 {} (fun _ _ => some .timeout) rootQuery =
      some ⟨.ok ResponseCode.noError, [], fan.finished, fan.forwarder⟩ := by
    rw [Forwarder.process_admitted hadmits, hfan, Option.map_some, hmerged]
    rfl
  refine ⟨_, hprocess, rfl, rfl, fun hkept => ?_⟩
  obtain ⟨m, htaken, -⟩ := hkept.replied _ rfl
  cases htaken

end Rehearsal

end DnsFanout
