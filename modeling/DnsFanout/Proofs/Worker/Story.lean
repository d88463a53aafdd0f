import DnsFanout.Proofs.Worker.Observe
import DnsFanout.Proofs.Worker.Round

/-! A run as the list of its attempts. Each attempt either ends the run or is followed by the
next one, so a fact about runs is shown from the last attempt backwards. -/

namespace DnsFanout.Worker

/-- An attempt of a run: how it was to be sent, what it came to, and if that was charged. -/
structure Try where
  begun : Instant
  preference : Preference
  ended : Instant
  result : Except Failure Message
  charged : Bool

/-- What an attempt adds to the log. -/
def Try.entries (maxFails : UInt32) (scope : Scope) (a : Try) : List (Instant × Deed) :=
  (if (scope.verdict? a.begun).isSome then [] else [(a.begun, .sent a.preference)]) ++
    [(a.ended, .heard a.result)] ++ if a.charged then charging maxFails a.ended else []

variable {ρ : Type} [Resolver ρ] {maxFails : UInt32} {scope : Scope} {request : Request}
  {w : Worker} {now t : Instant} {r r' : ρ} {outcome : Outcome} {tries : List Try}

/-- The attempts of a worker that comes to an outcome. -/
inductive Story (maxFails : UInt32) (scope : Scope) (request : Request) :
    Worker → Instant → ρ → List Try → Outcome → Prop
  | last {w : Worker} {now t : Instant} {r r' : ρ} {result : Except Failure Message}
    {charged : Bool} {outcome : Outcome}
    (ha : Attempted scope request w now r (.answered result) t r')
    (ho : Observed request maxFails (scope.isCancelled t) (scope.isExpired t) w result
      (.done charged outcome)) :
    Story maxFails scope request w now r [⟨now, w.preference, t, result, charged⟩] outcome
  | more {w w' : Worker} {now t : Instant} {r r' : ρ} {result : Except Failure Message}
    {next : Next} {tries : List Try} {outcome : Outcome}
    (ha : Attempted scope request w now r (.answered result) t r')
    (ho : Observed request maxFails (scope.isCancelled t) (scope.isExpired t) w result next)
    (hnext : next.worker? = some w')
    (hrest : Story maxFails scope request w' t (if next.charges then charge maxFails r' else r')
      tries outcome) :
    Story maxFails scope request w now r (⟨now, w.preference, t, result, next.charges⟩ :: tries)
      outcome

theorem Story.ne_nil (h : Story maxFails scope request w now r tries outcome) : tries ≠ [] := by
  cases h <;> exact List.cons_ne_nil _ _

/-- The log of a worker that came to an outcome tells of its attempts and of nothing else. -/
theorem story_of_logged {log : Log ρ} (h : logged maxFails scope request w now r = some log)
    (hend : log.ending = .settled outcome) :
    ∃ tries, Story maxFails scope request w now r tries outcome ∧
      log.entries = tries.flatMap (Try.entries maxFails scope) ∧
      tries.getLast?.map Try.ended = some log.finished := by
  revert hend
  refine logged_induction (motive := fun w now r log => log.ending = .settled outcome →
    ∃ tries, Story maxFails scope request w now r tries outcome ∧
      log.entries = tries.flatMap (Try.entries maxFails scope) ∧
      tries.getLast?.map Try.ended = some log.finished) ?crashed ?again ?charged ?done w now r log h
  case crashed => exact fun _ => nofun
  case again =>
    intro w w' now t r r' result log ha ho ih hend
    obtain ⟨tries, hstory, hentries, hlast⟩ := ih hend
    refine ⟨_ :: tries, .more ha (ho ▸ observed ..) rfl hstory, ?_, ?_⟩
    · simp [Log.after, hentries, Try.entries, opening, Next.charges]
    · rw [List.getLast?_cons_of_ne_nil hstory.ne_nil]
      exact hlast
  case charged =>
    intro w w' now t r r' result log ha ho ih hend
    obtain ⟨tries, hstory, hentries, hlast⟩ := ih hend
    refine ⟨_ :: tries, .more ha (ho ▸ observed ..) rfl hstory, ?_, ?_⟩
    · simp [Log.after, hentries, Try.entries, opening, Next.charges]
    · rw [List.getLast?_cons_of_ne_nil hstory.ne_nil]
      exact hlast
  case done =>
    rintro w now t r r' result charged outcome ha ho ⟨⟩
    exact ⟨_, .last ha (ho ▸ observed ..), by simp [Try.entries, opening], rfl⟩

/-- The attempt ahead comes to this. -/
def Standing.Tries (maxFails : UInt32) (scope : Scope) (request : Request) (s : Standing ρ)
    (a : Try) : Prop :=
  ∃ t r result next,
    Attempted scope request s.worker s.now s.resolver (.answered result) t r ∧
    Observed request maxFails (scope.isCancelled t) (scope.isExpired t) s.worker result next ∧
    a = ⟨s.now, s.worker.preference, t, result, next.charges⟩

/-- The attempts of a worker before the one ahead of it, whether the run ends or not. -/
inductive Trail (maxFails : UInt32) (scope : Scope) (request : Request) (start : Standing ρ) :
    List Try → Standing ρ → Prop
  | start : Trail maxFails scope request start [] start
  | more {tries : List Try} {s : Standing ρ} {w : Worker} {t : Instant} {r : ρ}
    {result : Except Failure Message} {next : Next}
    (h : Trail maxFails scope request start tries s)
    (ha : Attempted scope request s.worker s.now s.resolver (.answered result) t r)
    (ho : Observed request maxFails (scope.isCancelled t) (scope.isExpired t) s.worker result next)
    (hnext : next.worker? = some w) :
    Trail maxFails scope request start
      (tries ++ [⟨s.now, s.worker.preference, t, result, next.charges⟩])
      ⟨w, t, if next.charges then charge maxFails r else r⟩

namespace Trail

variable {start s : Standing ρ} {result : Except Failure Message}

theorem again (h : Trail maxFails scope request start tries s)
    (ha : s.attempt scope request = (some (.answered result, t), r))
    (ho : s.next maxFails scope request t result = .again w) :
    Trail maxFails scope request start
      (tries ++ [⟨s.now, s.worker.preference, t, result, false⟩]) ⟨w, t, r⟩ := by
  have hcase : Observed request maxFails (scope.isCancelled t) (scope.isExpired t) s.worker
    result (.again w) := ho ▸ observed ..
  exact .more h (attempted_of_attempt ha) hcase rfl

theorem charged (h : Trail maxFails scope request start tries s)
    (ha : s.attempt scope request = (some (.answered result, t), r))
    (ho : s.next maxFails scope request t result = .charged w) :
    Trail maxFails scope request start
      (tries ++ [⟨s.now, s.worker.preference, t, result, true⟩]) ⟨w, t, charge maxFails r⟩ := by
  have hcase : Observed request maxFails (scope.isCancelled t) (scope.isExpired t) s.worker
    result (.charged w) := ho ▸ observed ..
  exact .more h (attempted_of_attempt ha) hcase rfl

end Trail

theorem exists_trail {start s : Standing ρ} (h : Rounds maxFails scope request start s) :
    ∃ tries, Trail maxFails scope request start tries s := by
  induction h with
  | refl => exact ⟨[], .start⟩
  | tail _ hround ih =>
    obtain ⟨tries, htrail⟩ := ih
    cases hround with
    | again ha ho => exact ⟨_, htrail.again ha ho⟩
    | charged ha ho => exact ⟨_, htrail.charged ha ho⟩

/-- What comes before an attempt of a run is a trail. -/
theorem Story.exists_trail {start : Standing ρ} {earlier : List Try}
    (h : Story maxFails scope request w now r tries outcome)
    (htrail : Trail maxFails scope request start earlier ⟨w, now, r⟩)
    {before after : List Try} {a : Try} (hsplit : tries = before ++ a :: after) :
    ∃ s, Trail maxFails scope request start (earlier ++ before) s ∧
      s.Tries maxFails scope request a := by
  induction h generalizing earlier before with
  | @last w now t r r' result charged outcome ha ho =>
    obtain ⟨rfl, rfl⟩ : before = [] ∧ a = ⟨now, w.preference, t, result, charged⟩ := by
      cases before <;> simp_all
    refine ⟨_, by rwa [List.append_nil], t, r', result, _, ha, ho, ?_⟩
    cases charged <;> rfl
  | @more w w' now t r r' result next tries outcome ha ho hnext hrest ih =>
    cases before with
    | nil =>
      obtain ⟨rfl, -⟩ := List.cons.inj hsplit
      exact ⟨_, by rwa [List.append_nil], t, r', result, next, ha, ho, rfl⟩
    | cons first before =>
      obtain ⟨rfl, htail⟩ := List.cons.inj hsplit
      obtain ⟨s, hs, htries⟩ := ih (.more htrail ha ho hnext) htail
      exact ⟨s, by simpa using hs, htries⟩

/-- The attempt ahead comes to an end without a crash. -/
def Standing.Answered (scope : Scope) (request : Request) (s : Standing ρ) : Prop :=
  ∃ result t r, s.attempt scope request = (some (.answered result, t), r)

/-- A worker all of whose attempts are answered comes to an outcome. -/
theorem exists_log (hanswered : ∀ s, Rounds maxFails scope request ⟨w, now, r⟩ s →
    s.Answered scope request) :
    ∃ log outcome, logged maxFails scope request w now r = some log ∧
      log.ending = .settled outcome := by
  fun_induction logged maxFails scope request w now r with
  | case1 w now r r' ha =>
    obtain ⟨result, t, r'', hfirst⟩ := hanswered _ .refl
    cases ha.symm.trans hfirst
  | case2 w now r detail t r' ha =>
    obtain ⟨result, t, r'', hfirst⟩ := hanswered _ .refl
    cases ha.symm.trans hfirst
  | case3 w now r result t r' ha heard w' ho ih =>
    obtain ⟨log, outcome, hlog, hend⟩ := ih fun s hs => hanswered s (.head (.again ha ho) hs)
    exact ⟨log.after heard, outcome, by rw [hlog]; rfl, hend⟩
  | case4 w now r result t r' ha heard w' ho ih =>
    obtain ⟨log, outcome, hlog, hend⟩ := ih fun s hs => hanswered s (.head (.charged ha ho) hs)
    exact ⟨log.after (heard ++ charging maxFails t), outcome, by rw [hlog]; rfl, hend⟩
  | case5 w now r result t r' ha heard charged outcome ho => exact ⟨_, outcome, rfl, rfl⟩

/-- Conversely, no attempt of a run that comes to an outcome stays unanswered. -/
theorem answered_of_run {s s' : Standing ρ} {ended : Run ρ}
    (h : s.run maxFails scope request = some ended) (hend : ended.ending = .settled outcome)
    (hrounds : Rounds maxFails scope request s s') : s'.Answered scope request := by
  rw [run_of_rounds hrounds] at h
  cases ha : s'.attempt scope request with
  | mk attempt r =>
    match attempt with
    | none =>
      have hnever : s'.worker.attempt scope request s'.now s'.resolver = (none, r) := ha
      rw [Standing.run, run, hnever] at h
      cases h
    | some (.crashed detail, t) =>
      rw [Standing.run, run_of_crashed ha] at h
      cases h
      cases hend
    | some (.answered result, t) => exact ⟨result, t, r, ha⟩

end DnsFanout.Worker
