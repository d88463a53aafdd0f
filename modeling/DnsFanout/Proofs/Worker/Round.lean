import DnsFanout.Proofs.Worker.Journal
import Mathlib.Logic.Relation

/-! A worker from one attempt to the next: the rounds of a run, whether it ends or not. -/

namespace DnsFanout.Worker

/-- A worker with an attempt ahead of it, and its resolver. -/
structure Standing (ρ : Type) where
  worker : Worker
  now : Instant
  resolver : ρ

variable {ρ : Type} [Resolver ρ]

def Standing.attempt (s : Standing ρ) (scope : Scope) (request : Request) :
    Option (Attempt × Instant) × ρ :=
  s.worker.attempt scope request s.now s.resolver

def Standing.next (s : Standing ρ) (maxFails : UInt32) (scope : Scope) (request : Request)
    (t : Instant) (result : Except Failure Message) : Next :=
  s.worker.observe request maxFails (scope.isCancelled t) (scope.isExpired t) result

variable (maxFails : UInt32) (scope : Scope) (request : Request)

/-- An attempt that is followed by another. -/
inductive Round : Standing ρ → Standing ρ → Prop
  | again {s : Standing ρ} {w : Worker} {t : Instant} {r : ρ} {result : Except Failure Message}
    (ha : s.attempt scope request = (some (.answered result, t), r))
    (ho : s.next maxFails scope request t result = .again w) : Round s ⟨w, t, r⟩
  | charged {s : Standing ρ} {w : Worker} {t : Instant} {r : ρ} {result : Except Failure Message}
    (ha : s.attempt scope request = (some (.answered result, t), r))
    (ho : s.next maxFails scope request t result = .charged w) :
    Round s ⟨w, t, charge maxFails r⟩

abbrev Rounds : Standing ρ → Standing ρ → Prop :=
  Relation.ReflTransGen (Round maxFails scope request)

def Standing.run (s : Standing ρ) : Option (Run ρ) :=
  Worker.run maxFails scope request s.worker s.now s.resolver

variable {maxFails scope request} {s s' : Standing ρ}

theorem run_of_round (h : Round maxFails scope request s s') :
    s.run maxFails scope request = s'.run maxFails scope request := by
  cases h with
  | again ha ho => exact run_of_again ha ho
  | charged ha ho => exact run_of_charged ha ho

theorem run_of_rounds (h : Rounds maxFails scope request s s') :
    s.run maxFails scope request = s'.run maxFails scope request := by
  induction h with
  | refl => rfl
  | tail _ hround ih => exact ih.trans (run_of_round hround)

/-- A run that ends does so after some rounds, with a crash or with what its last attempt
heard. -/
theorem exists_last {ended : Run ρ} (h : s.run maxFails scope request = some ended) :
    ∃ last, Rounds maxFails scope request s last ∧
      ((∃ detail, ended.ending = .crashed detail) ∨
        ∃ t r result charged outcome,
          last.attempt scope request = (some (.answered result, t), r) ∧
          last.next maxFails scope request t result = .done charged outcome ∧
          ended.ending = .settled outcome) := by
  obtain ⟨w, now, r⟩ := s
  unfold Standing.run at h
  fun_induction Worker.run maxFails scope request w now r with
  | case1 w now r r' ha => cases h
  | case2 w now r detail t r' ha =>
    cases h
    exact ⟨_, .refl, .inl ⟨detail, rfl⟩⟩
  | case3 w now r result t r' ha w' ho ih =>
    obtain ⟨last, hrounds, hlast⟩ := ih h
    exact ⟨last, .head (.again ha ho) hrounds, hlast⟩
  | case4 w now r result t r' ha w' ho ih =>
    obtain ⟨last, hrounds, hlast⟩ := ih h
    exact ⟨last, .head (.charged ha ho) hrounds, hlast⟩
  | case5 w now r result t r' ha charged outcome ho =>
    cases h
    exact ⟨_, .refl, .inr ⟨t, r', result, charged, outcome, ha, ho, rfl⟩⟩

end DnsFanout.Worker
