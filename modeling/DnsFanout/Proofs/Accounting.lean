import DnsFanout.Proofs.Worker.Story
import DnsFanout.Rehearsal.Resolver
import Mathlib.Logic.ExistsUnique

/-! The account of a run. Every attempt counts as one thing, and the failures that are charged
bound how often a resolver is asked. -/

namespace DnsFanout

namespace Worker

/-- The attempt brought a truncated reply that is asked for again over a stream. -/
def Try.Escalates (a : Try) : Prop :=
  match a.result with
  | .ok reply => reply.truncated ∧ ¬a.preference.forceStream ∧ a.preference.preferDatagram
  | .error _ => False

instance (a : Try) : Decidable a.Escalates := by
  unfold Try.Escalates
  split <;> infer_instance

/-- What an attempt counts as. -/
inductive Part
  | free
  | escalated
  | charged
  | abandoned
  | settled

/-- A closed connection may be free, and a failure is abandoned if the query is cancelled. -/
def Part.Of (scope : Scope) (a : Try) : Part → Prop
  | free => a.result = .error .closedConnection ∧ a.charged = false
  | escalated => a.Escalates ∧ a.charged = false
  | charged => (∃ cause, a.result = .error cause) ∧ a.charged = true
  | abandoned => (∃ cause, a.result = .error cause) ∧ a.charged = false ∧
      scope.isCancelled a.ended = true
  | settled => (∃ reply, a.result = .ok reply) ∧ ¬a.Escalates ∧ a.charged = false

/-- The part is followed by another attempt, if any attempt is left. -/
def Part.GoesOn : Part → Prop
  | free | escalated | charged => True
  | abandoned | settled => False

section

variable {ρ : Type} [Resolver ρ] {maxFails : UInt32} {scope : Scope} {request : Request}
  {w : Worker} {now t : Instant} {r r' : ρ} {result : Except Failure Message}
  {outcome : Outcome} {tries : List Try}

theorem Attempted.open_of_closed
    (ha : Attempted scope request w now r (.answered (.error .closedConnection)) t r') :
    scope.isCancelled t = false := by
  have hcause {u : Instant} (h : scope.verdict? u = some .closedConnection) : False := by
    rcases Scope.verdict?_eq_some h with ⟨-, h⟩ | ⟨-, -, h⟩ <;> cases h
  cases ha with
  | shut hover => exact (hcause hover).elim
  | ended hopen hr ht => exact (Scope.verdict?_eq_none.mp ht).1
  | cut hopen hr hstop ht => exact (hcause ht).elim

theorem Part.unique {a : Try}
    (hopen : a.result = .error .closedConnection → scope.isCancelled a.ended = false)
    {part other : Part} (h : part.Of scope a) (h' : other.Of scope a) : other = part := by
  obtain ⟨begun, preference, ended, result, charged⟩ := a
  cases result with
  | error cause =>
    cases part <;> cases other <;> simp_all [Of, Try.Escalates]
  | ok reply =>
    cases part <;> cases other <;> simp_all [Of, Try.Escalates]

/-- Every attempt counts as something, and one that another follows does not end a run. -/
theorem Observed.part {next : Next} (h : Observed request maxFails (scope.isCancelled t)
      (scope.isExpired t) w result next) (now : Instant) :
    ∃ part : Part, part.Of scope ⟨now, w.preference, t, result, next.charges⟩ ∧
      (next.worker?.isSome → part.GoesOn) := by
  cases h with
  | free hfree => exact ⟨.free, ⟨rfl, rfl⟩, fun _ => trivial⟩
  | escalated htruncated hescalates =>
    exact ⟨.escalated, ⟨⟨htruncated, hescalates⟩, rfl⟩, fun _ => trivial⟩
  | settled hwhole => exact ⟨.settled, ⟨⟨_, rfl⟩, fun h => hwhole h.1 h.2, rfl⟩, nofun⟩
  | abandoned hcounts hcancelled => exact ⟨.abandoned, ⟨⟨_, rfl⟩, rfl, hcancelled⟩, nofun⟩
  | exhausted hcounts hcancelled hover => exact ⟨.charged, ⟨⟨_, rfl⟩, rfl⟩, nofun⟩
  | charged hcounts hcancelled hmore hopen => exact ⟨.charged, ⟨⟨_, rfl⟩, rfl⟩, fun _ => trivial⟩

/-- The attempts that are left: fewer free ones, or one failure less. -/
theorem Observed.worker {next : Next} {w' : Worker}
    (h : Observed request maxFails (scope.isCancelled t) (scope.isExpired t) w result next)
    (hnext : next.worker? = some w') :
    (next.charges = false ∧ w'.fails = w.fails ∧ w'.slack < w.slack) ∨
      (next.charges = true ∧ w'.fails = w.fails + 1 ∧ w'.fails < budget maxFails ∧
        w'.slack ≤ w.slack + tolerance) := by
  cases h with
  | free hfree =>
    cases hnext
    refine .inl ⟨rfl, rfl, ?_⟩
    simp only [slack]
    omega
  | escalated htruncated hescalates =>
    cases hnext
    exact .inl ⟨rfl, rfl, by simp [slack, show ¬_ ∧ _ from hescalates]⟩
  | charged hcounts hcancelled hmore hopen =>
    cases hnext
    refine .inr ⟨rfl, rfl, hmore, ?_⟩
    simp only [slack]
    omega
  | _ => cases hnext

namespace Story

theorem parts (h : Story maxFails scope request w now r tries outcome) :
    (∀ a ∈ tries, ∃! part : Part, part.Of scope a) ∧
      ∀ a ∈ tries.dropLast, ∃ part : Part, part.Of scope a ∧ part.GoesOn := by
  have unique {w : Worker} {now t : Instant} {r r' : ρ} {result : Except Failure Message}
      {charged : Bool} (ha : Attempted scope request w now r (.answered result) t r')
      {part : Part} (hpart : part.Of scope ⟨now, w.preference, t, result, charged⟩) :
      ∃! part : Part, part.Of scope ⟨now, w.preference, t, result, charged⟩ := by
    refine ⟨part, hpart, fun other hother => Part.unique (fun hclosed => ?_) hpart hother⟩
    dsimp only at hclosed
    subst hclosed
    exact ha.open_of_closed
  induction h with
  | @last w now t r r' result charged outcome ha ho =>
    obtain ⟨part, hpart, -⟩ := ho.part now
    rw [show (Next.done charged outcome).charges = charged by cases charged <;> rfl] at hpart
    refine ⟨fun a hin => ?_, by simp⟩
    obtain rfl := List.mem_singleton.mp hin
    exact unique ha hpart
  | @more w w' now t r r' result next tries outcome ha ho hnext hrest ih =>
    obtain ⟨part, hpart, hgoes⟩ := ho.part now
    refine ⟨fun a hin => ?_, fun a hin => ?_⟩
    · rcases List.mem_cons.mp hin with rfl | hin
      · exact unique ha hpart
      · exact ih.1 a hin
    · rw [List.dropLast_cons_of_ne_nil hrest.ne_nil] at hin
      rcases List.mem_cons.mp hin with rfl | hin
      · exact ⟨part, hpart, hgoes (by rw [hnext]; rfl)⟩
      · exact ih.2 a hin

/-- Four attempts at most for every failure of the budget, and one more for the escalation. -/
theorem length_le (h : Story maxFails scope request w now r tries outcome)
    (hw : w.fails < budget maxFails) :
    tries.length + 4 * (w.fails + 1) ≤ 4 * budget maxFails + w.slack + 1 := by
  -- a free attempt or the escalation takes one from the slack, a failure buys four attempts
  induction h with
  | last ha ho =>
    rw [List.length_singleton]
    omega
  | more ha ho hnext hrest ih =>
    rw [List.length_cons]
    rcases ho.worker hnext with ⟨-, hfails, hslack⟩ | ⟨-, hfails, hmore, hslack⟩
    · have hrest := ih (hfails ▸ hw)
      omega
    · have hrest := ih hmore
      rw [tolerance] at hslack
      omega

theorem exists_last (h : Story maxFails scope request w now r tries outcome)
    (hw : w.fails < budget maxFails) :
    ∃ before last, tries = before ++ [last] ∧
      ((∃ reply, last.result = .ok reply ∧ outcome = settle request reply ∧
          w.fails + tries.countP (·.charged) < budget maxFails) ∨
        ∃ cause, last.result = .error cause ∧ outcome = .failed cause ∧
          w.fails + tries.countP (·.charged) ≤ budget maxFails ∧
          (w.fails + tries.countP (·.charged) = budget maxFails ∨
            scope.isCancelled last.ended = true ∨ scope.isExpired last.ended = true)) := by
  induction h with
  | last ha ho =>
    refine ⟨[], _, rfl, ?_⟩
    simp only [List.countP_singleton]
    cases ho with
    | settled hwhole => exact .inl ⟨_, rfl, rfl, hw⟩
    | abandoned hcounts hcancelled =>
      exact .inr ⟨_, rfl, rfl, Nat.le_of_lt hw, .inr (.inl hcancelled)⟩
    | exhausted hcounts hcancelled hover =>
      have hspent (h : budget maxFails ≤ _ + 1) := Nat.le_antisymm hw h
      exact .inr ⟨_, rfl, rfl, hw, hover.imp hspent .inr⟩
  | @more w w' now t r r' result next tries outcome ha ho hnext hrest ih =>
    have hcount : w.fails + List.countP (·.charged)
        (⟨now, w.preference, t, result, next.charges⟩ :: tries) =
          w'.fails + tries.countP (·.charged) := by
      rcases ho.worker hnext with ⟨hcharges, hfails, -⟩ | ⟨hcharges, hfails, -⟩
      · rw [List.countP_cons_of_neg (by simp [hcharges]), hfails]
      · rw [List.countP_cons_of_pos (by simpa using hcharges), hfails]
        omega
    have hw' : w'.fails < budget maxFails := by
      rcases ho.worker hnext with ⟨-, hfails, -⟩ | ⟨-, -, hmore, -⟩
      · rwa [hfails]
      · exact hmore
    obtain ⟨before, last, rfl, hlast⟩ := ih hw'
    rw [hcount]
    exact ⟨_ :: before, last, rfl, hlast⟩

/-- A worker escalates once, and its attempts go over streams from then on. -/
theorem escalations_le (h : Story maxFails scope request w now r tries outcome) :
    tries.countP (fun a => decide a.Escalates) ≤ if w.Escalates then 1 else 0 := by
  induction h with
  | @last w now t r r' result charged outcome ha ho =>
    have hnot : ¬Try.Escalates ⟨now, w.preference, t, result, charged⟩ := by
      cases ho with
      | settled hwhole => exact fun h => hwhole h.1 h.2
      | abandoned | exhausted => exact id
    simp [hnot]
  | @more w w' now t r r' result next tries outcome ha ho hnext hrest ih =>
    rw [List.countP_cons]
    cases ho with
    | escalated htruncated hescalates =>
      cases hnext
      rw [if_neg fun hforced => hforced.1 rfl] at ih
      rw [if_pos hescalates]
      split <;> omega
    | free hfree =>
      cases hnext
      exact ih
    | charged hcounts hcancelled hmore hopen =>
      cases hnext
      exact ih
    | _ => cases hnext

end Story

omit [Resolver ρ] in
theorem Try.countP_entries (maxFails : UInt32) (scope : Scope) (a : Try) :
    (a.entries maxFails scope).countP (·.2.isSent) ≤ 1 ∧
    (a.entries maxFails scope).countP (·.2.isCharge) = (if a.charged then 1 else 0) ∧
    (a.entries maxFails scope).countP (·.2.isAsked) =
      if maxFails = 0 then 0 else if a.charged then 1 else 0 := by
  cases hcharged : a.charged <;> by_cases hmax : maxFails = 0 <;>
    by_cases hover : (scope.verdict? a.begun).isSome <;>
    simp [entries, charging, hcharged, hmax, hover, Deed.isSent, Deed.isCharge, Deed.isAsked]

omit [Resolver ρ] in
/-- An attempt is one send at most. A charge goes with a request for a probe, unless failures
are not held against the resolver. -/
theorem countP_entries (maxFails : UInt32) (scope : Scope) (tries : List Try) :
    (tries.flatMap (Try.entries maxFails scope)).countP (·.2.isSent) ≤ tries.length ∧
    (tries.flatMap (Try.entries maxFails scope)).countP (·.2.isCharge) =
      tries.countP (·.charged) ∧
    (tries.flatMap (Try.entries maxFails scope)).countP (·.2.isAsked) =
      if maxFails = 0 then 0 else tries.countP (·.charged) := by
  induction tries with
  | nil => simp
  | cons a tries ih =>
    obtain ⟨hsent, hcharge, hasked⟩ := ih
    obtain ⟨hsent', hcharge', hasked'⟩ := a.countP_entries maxFails scope
    simp only [List.flatMap_cons, List.countP_append, List.countP_cons, List.length_cons, hcharge,
      hasked, hcharge', hasked']
    refine ⟨by omega, Nat.add_comm _ _, ?_⟩
    split
    · rfl
    · exact Nat.add_comm _ _

/-- The account of a run: the log tells of these attempts, and this is what they come to. -/
structure Accounted (maxFails : UInt32) (scope : Scope) (request : Request)
    (preference : Preference) (log : Log ρ) (tries : List Try) (outcome : Outcome) : Prop where
  ending : log.ending = .settled outcome
  entries : log.entries = tries.flatMap (Try.entries maxFails scope)
  sent : log.entries.countP (·.2.isSent) ≤ 4 * budget maxFails +
    if ¬preference.forceStream ∧ preference.preferDatagram then 1 else 0
  parts : ∀ a ∈ tries, ∃! part : Part, part.Of scope a
  /-- Only the last attempt may settle the run or be abandoned. -/
  earlier : ∀ a ∈ tries.dropLast, ∃ part : Part, part.Of scope a ∧ part.GoesOn
  escalations : tries.countP (fun a => decide a.Escalates) ≤ 1
  charges : log.entries.countP (·.2.isCharge) = tries.countP (·.charged)
  charges_le : log.entries.countP (·.2.isCharge) ≤ budget maxFails
  asked : log.entries.countP (·.2.isAsked) =
    if maxFails = 0 then 0 else log.entries.countP (·.2.isCharge)
  failed : ∀ cause, outcome = .failed cause →
    (∃ before last, tries = before ++ [last] ∧ last.result = .error cause) ∧
      (log.entries.countP (·.2.isCharge) = budget maxFails ∨
        scope.isCancelled log.finished = true ∨ scope.isExpired log.finished = true)
  answered : (∀ cause, outcome ≠ .failed cause) →
    (∃ before last reply, tries = before ++ [last] ∧ last.result = .ok reply ∧
        outcome = settle request reply) ∧
      log.entries.countP (·.2.isCharge) < budget maxFails

theorem settle_ne_failed (request : Request) (reply : Message) (cause : Failure) :
    settle request reply ≠ .failed cause := by
  unfold settle
  split <;> exact nofun

theorem Story.accounted {preference : Preference} {log : Log ρ}
    (h : Story maxFails scope request ⟨preference, 0, 0⟩ now r tries outcome)
    (hending : log.ending = .settled outcome)
    (hentries : log.entries = tries.flatMap (Try.entries maxFails scope))
    (hfinished : tries.getLast?.map Try.ended = some log.finished) :
    Accounted maxFails scope request preference log tries outcome := by
  obtain ⟨hparts, hearlier⟩ := h.parts
  obtain ⟨hsent, hcharges, hasked⟩ := countP_entries maxFails scope tries
  rw [← hentries] at hsent hcharges hasked
  have hstart : 0 < budget maxFails := Nat.le_max_right _ _
  have hlength := h.length_le hstart
  obtain ⟨before, last, hlast, hends⟩ := h.exists_last hstart
  have hcount : 0 + tries.countP (·.charged) = log.entries.countP (·.2.isCharge) := by
    rw [hcharges, Nat.zero_add]
  have hended : last.ended = log.finished := by simpa [hlast] using hfinished
  rw [hcount, hended] at hends
  constructor
  case ending => exact hending
  case entries => exact hentries
  case sent =>
    simp only [slack, tolerance] at hlength
    omega
  case parts => exact hparts
  case earlier => exact hearlier
  case escalations => exact Nat.le_trans h.escalations_le (by split <;> decide)
  case charges => exact hcharges
  case charges_le =>
    rcases hends with ⟨reply, -, -, hfew⟩ | ⟨cause, -, -, hle, -⟩
    · exact Nat.le_of_lt hfew
    · exact hle
  case asked => rw [hasked, hcharges]
  case failed =>
    rintro cause rfl
    rcases hends with ⟨reply, -, hsettle, -⟩ | ⟨cause', hresult, hfailed, -, hover⟩
    · exact absurd hsettle.symm (settle_ne_failed request reply cause)
    · cases hfailed
      exact ⟨⟨before, last, hlast, hresult⟩, hover⟩
  case answered =>
    intro hne
    rcases hends with ⟨reply, hresult, hsettle, hfew⟩ | ⟨cause, -, hfailed, -⟩
    · exact ⟨⟨before, last, reply, hlast, hresult, hsettle⟩, hfew⟩
    · exact absurd hfailed (hne cause)

/-- A worker whose attempts are answered ends, and its run has an account. -/
theorem run_accounted (maxFails : UInt32) (scope : Scope) (request : Request)
    (preference : Preference) (start : Instant) (r : ρ)
    (hanswered : ∀ s, Rounds maxFails scope request ⟨⟨preference, 0, 0⟩, start, r⟩ s →
      s.Answered scope request) :
    ∃ log tries outcome,
      logged maxFails scope request ⟨preference, 0, 0⟩ start r = some log ∧
      run maxFails scope request ⟨preference, 0, 0⟩ start r = some log.toRun ∧
      log.resolver = replay scope request r log.entries ∧
      Accounted maxFails scope request preference log tries outcome := by
  obtain ⟨log, outcome, hlog, hending⟩ := exists_log hanswered
  obtain ⟨tries, hstory, hentries, hfinished⟩ := story_of_logged hlog hending
  refine ⟨log, tries, outcome, hlog, ?_, resolver_logged hlog,
    hstory.accounted hending hentries hfinished⟩
  rw [← map_toRun_logged, hlog]
  rfl

end

end Worker

namespace Rehearsal

/-- A resolver that closes every connection, with one truncated answer in between. -/
def fickle : Resolver where
  address := "10.0.0.1:53"
  script := [⟨.fail .closedConnection, 0⟩, ⟨.fail .closedConnection, 0⟩,
    ⟨.fail .closedConnection, 0⟩, ⟨.answer 0 true [], 0⟩]
  fallback := ⟨.fail .closedConnection, 0⟩

open Worker in
/-- Four attempts for each of two failures and one for the escalation: no run has more. -/
theorem accounted_fickle :
    let request : Request := ⟨Message.probe 7, .datagram, none⟩
    let start : Standing Resolver := ⟨⟨{ preferDatagram := true }, 0, 0⟩, 0, fickle⟩
    (∀ s, Rounds 2 {} request start s → s.Answered {} request) ∧
    ∃ log tries outcome, run 2 {} request start.worker 0 fickle = some log.toRun ∧
      Accounted 2 {} request { preferDatagram := true } log tries outcome ∧
      outcome = .failed .closedConnection ∧ log.resolver.calls = 9 ∧ log.resolver.failures = 2 := by
  intro request start
  have hrun : run 2 {} request start.worker 0 fickle =
      some ⟨.settled (.failed .closedConnection), 0, _⟩ :=
    (run_of_again rfl rfl).trans <| (run_of_again rfl rfl).trans <|
      (run_of_again rfl rfl).trans <| (run_of_again rfl rfl).trans <|
      (run_of_charged rfl rfl).trans <| (run_of_again rfl rfl).trans <|
      (run_of_again rfl rfl).trans <| (run_of_again rfl rfl).trans <| run_of_done rfl rfl
  have hanswered : ∀ s, Rounds 2 {} request start s → s.Answered {} request :=
    fun s hs => answered_of_run (s := start) hrun rfl hs
  obtain ⟨log, tries, outcome, -, hlog, -, haccount⟩ :=
    run_accounted 2 {} request { preferDatagram := true } 0 fickle hanswered
  refine ⟨hanswered, log, tries, outcome, hlog, haccount, ?_⟩
  have hsame := Option.some.inj (hlog.symm.trans hrun)
  have hending := haccount.ending
  rw [hsame] at hending ⊢
  exact ⟨(Ending.settled.inj hending).symm, rfl, rfl⟩

end Rehearsal

end DnsFanout
