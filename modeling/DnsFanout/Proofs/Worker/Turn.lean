import DnsFanout.Proofs.Worker.Journal
import DnsFanout.Proofs.Worker.Observe

/-! A worker in turns, as it takes them among other workers: an attempt begins in one
turn and ends in another, and each charge is a turn as well. Its turns taken in a row
make the run of a worker. -/

namespace DnsFanout.Worker

/-- Where a worker stands between two turns. -/
inductive Stage
  | ready (w : Worker)
  /-- An attempt is under way; it will come to this, or never to anything. -/
  | waiting (w : Worker) (work : Option Attempt)
  /-- The result counts as a failure. -/
  | charging (w : Worker) (result : Except Failure Message)
  | asking (w : Worker) (result : Except Failure Message)
  | judging (w : Worker) (result : Except Failure Message)
  | ended (ending : Ending)

/-- A worker between two turns, its resolver, and what it did. -/
structure Desk (ρ : Type) where
  stage : Stage
  resolver : ρ
  deeds : List Deed := []

namespace Desk

variable {ρ : Type}

/-- An attempt has ended; what follows is told by the scope at that instant. -/
def hear (maxFails : UInt32) (scope : Scope) (request : Request) (now : Instant) (w : Worker)
    (result : Except Failure Message) (r : ρ) (deeds : List Deed) : Desk ρ where
  resolver := r
  deeds := deeds ++ [.heard result]
  stage :=
    match w.observe request maxFails (scope.isCancelled now) (scope.isExpired now) result with
    | .again w => .ready w
    | .charged _ | .done true _ => .charging w result
    | .done false outcome => .ended (.settled outcome)

/-- The stage after a failure is charged: whether the worker ends is judged then. -/
def judge (maxFails : UInt32) (scope : Scope) (request : Request) (now : Instant) (w : Worker)
    (result : Except Failure Message) : Stage :=
  match w.observe request maxFails false (scope.isExpired now) result with
  | .again w | .charged w => .ready w
  | .done _ outcome => .ended (.settled outcome)

variable [Resolver ρ]

/-- One turn of a worker. The scope is looked at before the attempt is. -/
def turn (maxFails : UInt32) (scope : Scope) (request : Request) (now : Instant) (d : Desk ρ) :
    Desk ρ :=
  match d.stage with
  | .ready w =>
    match scope.verdict? now with
    | some cause => hear maxFails scope request now w (.error cause) d.resolver d.deeds
    | none =>
      let (work, r) := Resolver.attempt now scope request w.preference d.resolver
      ⟨.waiting w (work.map Prod.fst), r, d.deeds ++ [.sent w.preference]⟩
  | .waiting w work =>
    match scope.verdict? now, work with
    | some cause, _ => hear maxFails scope request now w (.error cause) d.resolver d.deeds
    | none, some (.answered result) => hear maxFails scope request now w result d.resolver d.deeds
    | none, some (.crashed detail) => { d with stage := .ended (.crashed detail) }
    | none, none => d
  | .charging w result =>
    ⟨.asking w result, Resolver.recordFailure d.resolver, d.deeds ++ [.charged]⟩
  | .asking w result =>
    if maxFails = 0 then { d with stage := .judging w result }
    else ⟨.judging w result, Resolver.requestProbe d.resolver, d.deeds ++ [.asked]⟩
  | .judging w result => { d with stage := judge maxFails scope request now w result }
  | .ended _ => d

def turns (maxFails : UInt32) (scope : Scope) (request : Request) (nows : List Instant)
    (d : Desk ρ) : Desk ρ :=
  nows.foldl (fun d now => d.turn maxFails scope request now) d

end Desk

variable {ρ : Type} [Resolver ρ] {maxFails : UInt32} {scope : Scope} {request : Request}
  {w w' : Worker} {now t : Instant} {r r' : ρ} {result : Except Failure Message}
  {cause : Failure} {outcome : Outcome}

/-- When the scope is over the worker ends, and is charged unless the query was cancelled. -/
theorem observe_of_verdict (h : scope.verdict? t = some cause) :
    w.observe request maxFails (scope.isCancelled t) (scope.isExpired t) (.error cause) =
      .done (!scope.isCancelled t) (.failed cause) := by
  rcases Scope.verdict?_eq_some h with ⟨hc, rfl⟩ | ⟨hc, he, rfl⟩
  · simp [observe, fail, hc]
  · simp [observe, fail, hc, he]

theorem Attempted.open_of_goes_on (ha : Attempted scope request w now r (.answered result) t r')
    (ho : w.observe request maxFails (scope.isCancelled t) (scope.isExpired t) result =
        .again w' ∨
      w.observe request maxFails (scope.isCancelled t) (scope.isExpired t) result =
        .charged w') : scope.verdict? t = none := by
  cases ha with
  | shut hover => simp [observe_of_verdict hover] at ho
  | ended hopen hr ht => exact ht
  | cut hopen hr hstop ht => simp [observe_of_verdict ht] at ho

namespace Desk

theorem turns_append (nows more : List Instant) (d : Desk ρ) :
    d.turns maxFails scope request (nows ++ more) =
      (d.turns maxFails scope request nows).turns maxFails scope request more :=
  List.foldl_append

theorem turns_ended {ending : Ending} (nows : List Instant) (r : ρ) (deeds : List Deed) :
    (⟨.ended ending, r, deeds⟩ : Desk ρ).turns maxFails scope request nows =
      ⟨.ended ending, r, deeds⟩ := by
  induction nows with
  | nil => rfl
  | cons now nows ih => exact ih

variable (maxFails) in
theorem turns_of_attempted (ha : Attempted scope request w now r (.answered result) t r') :
    ∃ nows, (scope.verdict? t = none → ∀ u ∈ nows, scope.verdict? u = none) ∧
      ∀ deeds, (⟨.ready w, r, deeds⟩ : Desk ρ).turns maxFails scope request nows =
        hear maxFails scope request t w result r'
          (deeds ++ (w.opening scope now).map Prod.snd) := by
  cases ha with
  | shut hover =>
    refine ⟨[now], by simp [hover], fun deeds => ?_⟩
    simp [turns, turn, hover, opening]
  | ended hopen hr ht =>
    refine ⟨[now, t], by simp [hopen], fun deeds => ?_⟩
    simp [turns, turn, hopen, hr, ht, opening]
  | cut hopen hr hstop ht =>
    refine ⟨[now, t], by simp [ht], fun deeds => ?_⟩
    simp [turns, turn, hopen, hr, ht, opening]

theorem turns_of_crashed {detail : String}
    (ha : Attempted scope request w now r (.crashed detail) t r') :
    ∃ nows, (scope.verdict? t = none → ∀ u ∈ nows, scope.verdict? u = none) ∧
      ∀ deeds, (⟨.ready w, r, deeds⟩ : Desk ρ).turns maxFails scope request nows =
        ⟨.ended (.crashed detail), r', deeds ++ (w.opening scope now).map Prod.snd⟩ := by
  cases ha with
  | ended hopen hr ht =>
    refine ⟨[now, t], by simp [hopen], fun deeds => ?_⟩
    simp [turns, turn, hopen, hr, ht, opening]

/-- At the instant of the failure the judgement is what was observed. -/
theorem judge_of_charges
    (h : (w.observe request maxFails (scope.isCancelled t) (scope.isExpired t) result).charges =
      true) :
    judge maxFails scope request t w result =
      match w.observe request maxFails (scope.isCancelled t) (scope.isExpired t) result with
      | .again w | .charged w => .ready w
      | .done _ outcome => .ended (.settled outcome) := by
  rw [judge, not_cancelled_of_charges h]

theorem turns_charging (deeds : List Deed) :
    (⟨.charging w result, r, deeds⟩ : Desk ρ).turns maxFails scope request [t, t, t] =
      ⟨judge maxFails scope request t w result, charge maxFails r,
        deeds ++ (Worker.charging maxFails t).map Prod.snd⟩ := by
  by_cases h : maxFails = 0 <;> simp [turns, turn, charge, Worker.charging, h]

end Desk

/-- The run of a worker is made by turns; while the scope is open at its end it was open
at all of them. -/
theorem exists_turns_of_logged {log : Log ρ}
    (h : logged maxFails scope request w now r = some log) :
    ∃ nows, (scope.verdict? log.finished = none → ∀ u ∈ nows, scope.verdict? u = none) ∧
      ∀ deeds, (⟨.ready w, r, deeds⟩ : Desk ρ).turns maxFails scope request nows =
        ⟨.ended log.ending, log.resolver, deeds ++ log.deeds⟩ := by
  refine logged_induction (motive := fun w _ r log => ∃ nows,
    (scope.verdict? log.finished = none → ∀ u ∈ nows, scope.verdict? u = none) ∧
      ∀ deeds, (⟨.ready w, r, deeds⟩ : Desk ρ).turns maxFails scope request nows =
        ⟨.ended log.ending, log.resolver, deeds ++ log.deeds⟩)
    ?crashed ?again ?charged ?done w now r log h
  case crashed => exact fun ha => Desk.turns_of_crashed ha
  case again =>
    rintro w w' now t r r' result log ha ho ⟨more, hopen, hmore⟩
    obtain ⟨nows, hfirst, hnows⟩ := Desk.turns_of_attempted maxFails ha
    refine ⟨nows ++ more, fun hend u hu => ?_, fun deeds => ?_⟩
    · rcases List.mem_append.mp hu with hu | hu
      · exact hfirst (ha.open_of_goes_on (.inl ho)) u hu
      · exact hopen hend u hu
    · rw [Desk.turns_append, hnows, Desk.hear, ho, hmore]
      simp [Log.after, Log.deeds]
  case charged =>
    rintro w w' now t r r' result log ha ho ⟨more, hopen, hmore⟩
    obtain ⟨nows, hfirst, hnows⟩ := Desk.turns_of_attempted maxFails ha
    have ht := ha.open_of_goes_on (.inr ho)
    refine ⟨nows ++ [t, t, t] ++ more, fun hend u hu => ?_, fun deeds => ?_⟩
    · rcases List.mem_append.mp hu with hu | hu
      · rcases List.mem_append.mp hu with hu | hu
        · exact hfirst ht u hu
        · simp at hu
          rwa [hu]
      · exact hopen hend u hu
    · rw [Desk.turns_append, Desk.turns_append, hnows, Desk.hear, ho, Desk.turns_charging]
      have hj : Desk.judge maxFails scope request t w result = .ready w' := by
        rw [Desk.judge_of_charges (by rw [ho]; rfl), ho]
      rw [hj, hmore]
      simp [Log.after, Log.deeds]
  case done =>
    intro w now t r r' result charged outcome ha ho
    obtain ⟨nows, hfirst, hnows⟩ := Desk.turns_of_attempted maxFails ha
    cases charged with
    | false =>
      refine ⟨nows, hfirst, fun deeds => ?_⟩
      rw [hnows, Desk.hear, ho]
      simp [Log.deeds]
    | true =>
      refine ⟨nows ++ [t, t, t], fun hend u hu => ?_, fun deeds => ?_⟩
      · rcases List.mem_append.mp hu with hu | hu
        · exact hfirst hend u hu
        · simp at hu
          rwa [hu]
      · rw [Desk.turns_append, hnows, Desk.hear, ho, Desk.turns_charging]
        have hj : Desk.judge maxFails scope request t w result = .ended (.settled outcome) := by
          rw [Desk.judge_of_charges (by rw [ho]; rfl), ho]
        rw [hj]
        simp [Log.deeds]

end DnsFanout.Worker
