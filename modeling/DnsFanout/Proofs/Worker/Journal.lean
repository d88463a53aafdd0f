import DnsFanout.Worker
import DnsFanout.Proofs.Scope

/-! What a worker does from its start to its end, with the instants: a run that is
written down. -/

namespace DnsFanout.Worker

/-- What a worker does to its resolver, and what comes of it. -/
inductive Deed
  | sent (preference : Preference)
  /-- An attempt ended, with the resolver's answer or with the scope. -/
  | heard (result : Except Failure Message)
  | charged
  | asked

/-- The deed is one that reaches the health of the resolver. -/
def Deed.reaches : Deed → Bool
  | charged | asked => true
  | sent _ | heard _ => false

def Deed.isCharge : Deed → Bool
  | charged => true
  | sent _ | heard _ | asked => false

def Deed.isSent : Deed → Bool
  | sent _ => true
  | heard _ | charged | asked => false

def Deed.isAsked : Deed → Bool
  | asked => true
  | sent _ | heard _ | charged => false

/-- A worker that has ended, and all that it did. -/
structure Log (ρ : Type) extends Run ρ where
  entries : List (Instant × Deed)

variable {ρ : Type}

/-- The log of a worker that did other things before. -/
def Log.after (entries : List (Instant × Deed)) (log : Log ρ) : Log ρ :=
  { log with entries := entries ++ log.entries }

def Log.deeds (log : Log ρ) : List Deed := log.entries.map Prod.snd

/-- An attempt is sent unless the scope is over. -/
def opening (scope : Scope) (w : Worker) (now : Instant) : List (Instant × Deed) :=
  if (scope.verdict? now).isSome then [] else [(now, .sent w.preference)]

def charging (maxFails : UInt32) (now : Instant) : List (Instant × Deed) :=
  (now, .charged) :: if maxFails = 0 then [] else [(now, .asked)]

variable [Resolver ρ]

/-- Runs the worker to its end and writes down what it does. -/
def logged (maxFails : UInt32) (scope : Scope) (request : Request) (w : Worker) (now : Instant)
    (r : ρ) : Option (Log ρ) :=
  match w.attempt scope request now r with
  | (none, _) => none
  | (some (.crashed detail, t), r) => some ⟨⟨.crashed detail, t, r⟩, w.opening scope now⟩
  | (some (.answered result, t), r) =>
    let heard := w.opening scope now ++ [(t, .heard result)]
    match _h : w.observe request maxFails (scope.isCancelled t) (scope.isExpired t) result with
    | .again w => (logged maxFails scope request w t r).map (Log.after heard)
    | .charged w => (logged maxFails scope request w t (charge maxFails r)).map
        (Log.after (heard ++ charging maxFails t))
    | .done charged outcome =>
      some ⟨⟨.settled outcome, t, if charged then charge maxFails r else r⟩,
        heard ++ if charged then charging maxFails t else []⟩
termination_by (budget maxFails - w.fails, w.slack)
decreasing_by
  · obtain ⟨hf, hs⟩ := fails_of_observe_again _h
    rw [hf]
    exact Prod.Lex.right _ hs
  · obtain ⟨hf, hb⟩ := fails_of_observe_charged _h
    exact Prod.Lex.left _ _ (by omega)

section Rounds

variable {maxFails : UInt32} {scope : Scope} {request : Request} {w w' : Worker} {now t : Instant}
  {r r' : ρ} {result : Except Failure Message} {detail : String} {charged : Bool}
  {outcome : Outcome}

theorem run_of_crashed (h : w.attempt scope request now r = (some (.crashed detail, t), r')) :
    run maxFails scope request w now r = some ⟨.crashed detail, t, r'⟩ := by
  rw [run, h]

theorem run_of_again (h : w.attempt scope request now r = (some (.answered result, t), r'))
    (ho : w.observe request maxFails (scope.isCancelled t) (scope.isExpired t) result = .again w') :
    run maxFails scope request w now r = run maxFails scope request w' t r' := by
  rw [run, h]
  dsimp only
  split <;> simp_all

theorem run_of_charged (h : w.attempt scope request now r = (some (.answered result, t), r'))
    (ho : w.observe request maxFails (scope.isCancelled t) (scope.isExpired t) result =
      .charged w') :
    run maxFails scope request w now r =
      run maxFails scope request w' t (charge maxFails r') := by
  rw [run, h]
  dsimp only
  split <;> simp_all

theorem run_of_done (h : w.attempt scope request now r = (some (.answered result, t), r'))
    (ho : w.observe request maxFails (scope.isCancelled t) (scope.isExpired t) result =
      .done charged outcome) :
    run maxFails scope request w now r =
      some ⟨.settled outcome, t, if charged then charge maxFails r' else r'⟩ := by
  rw [run, h]
  dsimp only
  split <;> simp_all

end Rounds

theorem map_toRun_logged (maxFails : UInt32) (scope : Scope) (request : Request) (w : Worker)
    (now : Instant) (r : ρ) :
    (logged maxFails scope request w now r).map Log.toRun = run maxFails scope request w now r := by
  fun_induction logged maxFails scope request w now r with
  | case1 w now r r' h => rw [run, h]; rfl
  | case2 w now r detail t r' h => rw [run_of_crashed h]; rfl
  | case3 w now r result t r' h heard w' ho ih =>
    rw [run_of_again h ho, ← ih, Option.map_map]
    rfl
  | case4 w now r result t r' h heard w' ho ih =>
    rw [run_of_charged h ho, ← ih, Option.map_map]
    rfl
  | case5 w now r result t r' h heard charged outcome ho => rw [run_of_done h ho]; rfl

/-- How one attempt of a worker goes. -/
inductive Attempted (scope : Scope) (request : Request) (w : Worker) (now : Instant) (r : ρ) :
    Attempt → Instant → ρ → Prop
  /-- The scope is over before anything is sent. -/
  | shut {cause : Failure} (hover : scope.verdict? now = some cause) :
    Attempted scope request w now r (.answered (.error cause)) now r
  /-- The attempt comes to an end of its own while the scope is open. -/
  | ended {a : Attempt} {t : Instant} {r' : ρ} (hopen : scope.verdict? now = none)
    (hr : Resolver.attempt now scope request w.preference r = (some (a, t), r'))
    (ht : scope.verdict? t = none) : Attempted scope request w now r a t r'
  /-- The scope ends before the attempt does. -/
  | cut {cause : Failure} {t : Instant} {r' : ρ} (hopen : scope.verdict? now = none)
    (hr : (Resolver.attempt now scope request w.preference r).2 = r')
    (hstop : scope.stop? = some t) (ht : scope.verdict? t = some cause) :
    Attempted scope request w now r (.answered (.error cause)) t r'

/-- The end of a race, as the end of an attempt. -/
def ofRace : Except Failure Attempt × Instant → Attempt × Instant
  | (.ok a, t) => (a, t)
  | (.error cause, t) => (.answered (.error cause), t)

theorem attempt_eq (w : Worker) (scope : Scope) (request : Request) (now : Instant) (r : ρ) :
    w.attempt scope request now r =
      if (scope.verdict? now).isSome then ((scope.race now none).map ofRace, r)
      else ((scope.race now (Resolver.attempt now scope request w.preference r).1).map ofRace,
        (Resolver.attempt now scope request w.preference r).2) := rfl

theorem ofRace_race {scope : Scope} {now t : Instant} {work : Option (Attempt × Instant)}
    {a : Attempt} (h : (scope.race now work).map ofRace = some (a, t)) :
    (∃ cause, scope.verdict? now = some cause ∧ a = .answered (.error cause) ∧ t = now) ∨
    (scope.verdict? now = none ∧ work = some (a, t) ∧ scope.verdict? t = none) ∨
    (∃ cause, scope.verdict? now = none ∧ scope.stop? = some t ∧
      scope.verdict? t = some cause ∧ a = .answered (.error cause)) := by
  obtain ⟨⟨value, u⟩, hrace, ha⟩ := Option.map_eq_some_iff.mp h
  rcases Scope.race_eq_some hrace with ⟨cause, hv, rfl, rfl⟩ | ⟨b, hv, rfl, rfl, hu⟩ |
    ⟨cause, hv, hs, hu, rfl⟩
  · cases ha
    exact .inl ⟨cause, hv, rfl, rfl⟩
  · cases ha
    exact .inr (.inl ⟨hv, rfl, hu⟩)
  · cases ha
    exact .inr (.inr ⟨cause, hv, hs, hu, rfl⟩)

theorem attempted_of_attempt {scope : Scope} {request : Request} {w : Worker} {now t : Instant}
    {r r' : ρ} {a : Attempt} (h : w.attempt scope request now r = (some (a, t), r')) :
    Attempted scope request w now r a t r' := by
  rw [attempt_eq] at h
  by_cases hover : (scope.verdict? now).isSome
  · rw [if_pos hover] at h
    obtain ⟨hrace, rfl⟩ := Prod.mk.inj h
    rcases ofRace_race hrace with ⟨cause, hv, rfl, rfl⟩ | ⟨hv, -⟩ | ⟨cause, hv, -⟩
    · exact .shut hv
    · simp [hv] at hover
    · simp [hv] at hover
  · rw [if_neg hover] at h
    obtain ⟨hrace, rfl⟩ := Prod.mk.inj h
    rcases ofRace_race hrace with ⟨cause, hv, rfl, rfl⟩ | ⟨hv, hw, ht⟩ | ⟨cause, hv, hs, ht, rfl⟩
    · simp [hv] at hover
    · exact .ended hv (Prod.ext hw rfl) ht
    · exact .cut hv rfl hs ht

theorem attempt_isSome {scope : Scope} {stop : Instant} (h : scope.stop? = some stop)
    (request : Request) (w : Worker) (now : Instant) (r : ρ) :
    (w.attempt scope request now r).1.isSome := by
  rw [attempt_eq]
  split
  · simpa using Scope.race_isSome h none
  · simpa using Scope.race_isSome h _

section Induction

variable {maxFails : UInt32} {scope : Scope} {request : Request}
  {motive : Worker → Instant → ρ → Log ρ → Prop}

/-- A log is made from its last attempt backwards; every attempt ends the worker or is
followed by another. -/
theorem logged_induction
    (crashed : ∀ {w : Worker} {now t : Instant} {r r' : ρ} {detail : String},
      Attempted scope request w now r (.crashed detail) t r' →
      motive w now r ⟨⟨.crashed detail, t, r'⟩, w.opening scope now⟩)
    (again : ∀ {w w' : Worker} {now t : Instant} {r r' : ρ} {result : Except Failure Message}
      {log : Log ρ}, Attempted scope request w now r (.answered result) t r' →
      w.observe request maxFails (scope.isCancelled t) (scope.isExpired t) result = .again w' →
      motive w' t r' log →
      motive w now r (log.after (w.opening scope now ++ [(t, .heard result)])))
    (charged : ∀ {w w' : Worker} {now t : Instant} {r r' : ρ} {result : Except Failure Message}
      {log : Log ρ}, Attempted scope request w now r (.answered result) t r' →
      w.observe request maxFails (scope.isCancelled t) (scope.isExpired t) result =
        .charged w' →
      motive w' t (charge maxFails r') log →
      motive w now r
        (log.after (w.opening scope now ++ [(t, .heard result)] ++ charging maxFails t)))
    (done : ∀ {w : Worker} {now t : Instant} {r r' : ρ} {result : Except Failure Message}
      {charged : Bool} {outcome : Outcome},
      Attempted scope request w now r (.answered result) t r' →
      w.observe request maxFails (scope.isCancelled t) (scope.isExpired t) result =
        .done charged outcome →
      motive w now r ⟨⟨.settled outcome, t, if charged then charge maxFails r' else r'⟩,
        w.opening scope now ++ [(t, .heard result)] ++
          if charged then charging maxFails t else []⟩)
    (w : Worker) (now : Instant) (r : ρ) :
    ∀ log, logged maxFails scope request w now r = some log → motive w now r log := by
  fun_induction logged maxFails scope request w now r with
  | case1 w now r r' ha =>
    intro log h
    cases h
  | case2 w now r detail t r' ha =>
    rintro log ⟨⟩
    exact crashed (attempted_of_attempt ha)
  | case3 w now r result t r' ha heard w' ho ih =>
    intro log h
    obtain ⟨rest, hrest, rfl⟩ := Option.map_eq_some_iff.mp h
    exact again (attempted_of_attempt ha) ho (ih rest hrest)
  | case4 w now r result t r' ha heard w' ho ih =>
    intro log h
    obtain ⟨rest, hrest, rfl⟩ := Option.map_eq_some_iff.mp h
    exact charged (attempted_of_attempt ha) ho (ih rest hrest)
  | case5 w now r result t r' ha heard charges outcome ho =>
    rintro log ⟨⟩
    exact done (attempted_of_attempt ha) ho

end Induction

/-- What a deed does to the resolver. -/
def Deed.apply (scope : Scope) (request : Request) (r : ρ) : Instant × Deed → ρ
  | (now, sent preference) => (Resolver.attempt now scope request preference r).2
  | (_, heard _) => r
  | (_, charged) => Resolver.recordFailure r
  | (_, asked) => Resolver.requestProbe r

/-- The resolver as the deeds of a worker leave it. -/
def replay (scope : Scope) (request : Request) (r : ρ) (entries : List (Instant × Deed)) : ρ :=
  entries.foldl (Deed.apply scope request) r

theorem replay_append (scope : Scope) (request : Request) (r : ρ)
    (before after : List (Instant × Deed)) :
    replay scope request r (before ++ after) =
      replay scope request (replay scope request r before) after := List.foldl_append

theorem replay_charging (scope : Scope) (request : Request) (maxFails : UInt32) (now : Instant)
    (r : ρ) : replay scope request r (charging maxFails now) = charge maxFails r := by
  by_cases h : maxFails = 0 <;> simp [replay, charging, charge, Deed.apply, h]

theorem replay_opening {scope : Scope} {request : Request} {w : Worker} {now t : Instant}
    {r r' : ρ} {a : Attempt} (h : Attempted scope request w now r a t r') :
    replay scope request r (w.opening scope now) = r' := by
  cases h with
  | shut hover => simp [replay, opening, hover]
  | ended hopen hr ht => simp [replay, opening, hopen, Deed.apply, hr]
  | cut hopen hr hstop ht => simpa [replay, opening, hopen, Deed.apply] using hr

/-- A log tells the whole story: replaying its entries gives the resolver that the worker
leaves behind. -/
theorem resolver_logged {maxFails : UInt32} {scope : Scope} {request : Request} {w : Worker}
    {now : Instant} {r : ρ} {log : Log ρ}
    (h : logged maxFails scope request w now r = some log) :
    log.resolver = replay scope request r log.entries := by
  have heard (r : ρ) (t : Instant) (result : Except Failure Message) :
      replay scope request r [(t, .heard result)] = r := rfl
  refine logged_induction
    (motive := fun _ _ r log => log.resolver = replay scope request r log.entries)
    ?crashed ?again ?charged ?done w now r log h
  case crashed => exact fun ha => (replay_opening ha).symm
  case again =>
    intro w w' now t r r' result log ha ho ih
    simpa only [Log.after, replay_append, replay_opening ha, heard] using ih
  case charged =>
    intro w w' now t r r' result log ha ho ih
    simpa only [Log.after, replay_append, replay_opening ha, heard, replay_charging] using ih
  case done =>
    intro w now t r r' result charged outcome ha ho
    cases charged with
    | true => simp only [if_true, replay_append, replay_opening ha, heard, replay_charging]
    | false =>
      simp only [Bool.false_eq_true, if_false, List.append_nil, replay_append, replay_opening ha,
        heard]

end DnsFanout.Worker
