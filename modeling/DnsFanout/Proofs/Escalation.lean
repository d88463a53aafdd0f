import DnsFanout.Proofs.Crew.Dispatch
import DnsFanout.Rehearsal.Handler
import DnsFanout.Rehearsal.Resolver
import Mathlib.Data.List.Induction

/-! How a worker comes to ask over streams. The first truncated reply to a datagram turns its
preference for good, and that is all: nothing is charged for it, and no other worker notices. -/

namespace DnsFanout

namespace Preference

/-- The result is a truncated reply that is asked for again over a stream. -/
def escalates (p : Preference) : Except Failure Message → Bool
  | .ok reply => reply.truncated && !p.forceStream && p.preferDatagram
  | .error _ => false

def forced (p : Preference) : Preference := { p with forceStream := true }

/-- The preference after these results: as it was before, up to the first that escalates. -/
def after (p : Preference) (results : List (Except Failure Message)) : Preference :=
  if results.any p.escalates then p.forced else p

theorem escalates_forced (p : Preference) (result : Except Failure Message) :
    p.forced.escalates result = false := by
  cases result <;> simp [escalates, forced]

theorem after_eq (p : Preference) (results : List (Except Failure Message)) :
    p.after results = p ∨ p.after results = p.forced := by
  by_cases h : results.any p.escalates
  · exact .inr (if_pos h)
  · exact .inl (if_neg h)

theorem preferDatagram_after (p : Preference) (results : List (Except Failure Message)) :
    (p.after results).preferDatagram = p.preferDatagram := by
  rcases p.after_eq results with h | h <;> rw [h]
  rfl

theorem after_concat (p : Preference) (results : List (Except Failure Message))
    (result : Except Failure Message) :
    p.after (results ++ [result]) =
      if (p.after results).escalates result then (p.after results).forced
      else p.after results := by
  have hany : (results ++ [result]).any p.escalates =
      (results.any p.escalates || p.escalates result) := by simp
  by_cases h : results.any p.escalates
  · have hafter : p.after results = p.forced := if_pos h
    rw [hafter, escalates_forced, after, hany, h]
    rfl
  · have hafter : p.after results = p := if_neg h
    rw [hafter, after, hany, eq_false_of_ne_true h, Bool.false_or]

/-- Once a result has escalated none does again. -/
theorem after_of_mem {p : Preference} {results : List (Except Failure Message)}
    {earlier : List (Except Failure Message)} {result : Except Failure Message}
    (h : (p.after earlier).escalates result = true) (hmem : result ∈ results) :
    p.after results = p.forced := by
  have hp : p.escalates result = true := by
    rcases p.after_eq earlier with heq | heq
    · rwa [heq] at h
    · rw [heq, escalates_forced] at h
      cases h
  exact if_pos (List.any_eq_true.mpr ⟨result, hmem, hp⟩)

end Preference

namespace Worker

def Deed.result? : Deed → Option (Except Failure Message)
  | heard result => some result
  | sent _ | charged | asked => none

/-- What the attempts came to. -/
def results (deeds : List Deed) : List (Except Failure Message) := deeds.filterMap Deed.result?

@[simp] theorem results_append (before more : List Deed) :
    results (before ++ more) = results before ++ results more := List.filterMap_append ..

@[simp] theorem results_cons (d : Deed) (deeds : List Deed) :
    results (d :: deeds) = d.result?.toList ++ results deeds := by
  cases d <;> rfl

/-- What a deed comes directly after. Every attempt is sent as the results so far tell; a charge
comes of a failure, and a probe of a charge. -/
def Due (p : Preference) (before : List Deed) : Deed → Prop
  | .sent q => q = p.after (results before)
  | .heard (.ok _) => ∃ earlier q, before = earlier ++ [.sent q]
  | .heard (.error _) => True
  | .charged => ∃ earlier cause, before = earlier ++ [.heard (.error cause)]
  | .asked => ∃ earlier, before = earlier ++ [.charged]

def Orderly (p : Preference) (deeds : List Deed) : Prop :=
  ∀ before d after, deeds = before ++ d :: after → Due p before d

/-- Where a reply comes from that settles the query. -/
def Settles (request : Request) (p : Preference) (deeds : List Deed) (outcome : Outcome) : Prop :=
  (∀ cause, outcome ≠ .failed cause) → ∃ before q reply,
    deeds = before ++ [.sent q, .heard (.ok reply)] ∧ outcome = settle request reply ∧
    (p.preferDatagram = true → reply.truncated = true → q.forceStream = true)

section

variable {p : Preference} {deeds : List Deed} {d : Deed}

theorem orderly_nil : Orderly p [] := by
  intro before d after h
  cases before <;> cases h

theorem Orderly.concat (h : Orderly p deeds) (hd : Due p deeds d) : Orderly p (deeds ++ [d]) := by
  intro before x after hsplit
  cases after using List.reverseRecOn with
  | nil =>
    obtain ⟨rfl, heq⟩ := List.append_inj' hsplit rfl
    obtain rfl := List.singleton_inj.mp heq
    exact hd
  | append_singleton after y =>
    have hsplit' : deeds ++ [d] = before ++ x :: after ++ [y] := by simpa using hsplit
    obtain ⟨heq, -⟩ := List.append_inj' hsplit' rfl
    exact h before x after heq

end

/-- What the stage of a worker knows of its deeds. -/
def Stage.Fits (request : Request) (p : Preference) (deeds : List Deed) : Stage → Prop
  | .ready w => w.preference = p.after (results deeds)
  | .waiting w _ => w.preference = p.after (results deeds) ∧
      ∃ before, deeds = before ++ [.sent w.preference]
  | .charging w result => w.preference = p.after (results deeds) ∧
      ∃ before cause, result = .error cause ∧ deeds = before ++ [.heard (.error cause)]
  | .asking w result => w.preference = p.after (results deeds) ∧
      (∃ cause, result = .error cause) ∧ ∃ before, deeds = before ++ [.charged]
  | .judging w result => w.preference = p.after (results deeds) ∧ ∃ cause, result = .error cause
  | .ended (.settled outcome) => Settles request p deeds outcome
  | .ended (.crashed _) => True

structure Desk.Fits {ρ : Type} (request : Request) (p : Preference) (d : Desk ρ) : Prop where
  orderly : Orderly p d.deeds
  stage : d.stage.Fits request p d.deeds

section

variable {ρ : Type} {maxFails : UInt32} {scope : Scope} {request : Request} {p : Preference}

theorem fits_hear {now : Instant} {w : Worker} {result : Except Failure Message} {r : ρ}
    {deeds : List Deed} (hdeeds : Orderly p deeds) (hw : w.preference = p.after (results deeds))
    (hsent : ∀ reply, result = .ok reply → ∃ before, deeds = before ++ [.sent w.preference]) :
    (Desk.hear maxFails scope request now w result r deeds).Fits request p := by
  have horderly : Orderly p (deeds ++ [.heard result]) := by
    refine hdeeds.concat ?_
    cases result with
    | error cause => trivial
    | ok reply =>
      obtain ⟨before, hbefore⟩ := hsent reply rfl
      exact ⟨before, _, hbefore⟩
  have hafter : p.after (results (deeds ++ [.heard result])) =
      if w.preference.escalates result then w.preference.forced else w.preference := by
    rw [results_append, hw]
    exact p.after_concat _ result
  refine ⟨horderly, ?_⟩
  have hcase := observed request maxFails (scope.isCancelled now) (scope.isExpired now) w result
  dsimp only [Desk.hear]
  generalize w.observe request maxFails (scope.isCancelled now) (scope.isExpired now) result =
    next at hcase
  cases hcase with
  | free hfree => exact hafter.symm
  | @escalated reply htruncated hescalates =>
    obtain ⟨hdatagram, hprefers⟩ := hescalates
    have hp : w.preference.escalates (.ok reply) = true := by
      simp [Preference.escalates, htruncated, hdatagram, hprefers]
    rw [if_pos hp] at hafter
    exact hafter.symm
  | @settled reply hwhole =>
    intro _
    obtain ⟨before, rfl⟩ := hsent reply rfl
    refine ⟨before, w.preference, reply, by simp, rfl, fun hprefers htruncated => ?_⟩
    rw [← p.preferDatagram_after, ← hw] at hprefers
    by_contra hdatagram
    exact hwhole htruncated ⟨hdatagram, hprefers⟩
  | abandoned hcounts hcancelled => exact fun h => absurd rfl (h _)
  | exhausted hcounts hcancelled hover => exact ⟨hafter.symm, _, _, rfl, rfl⟩
  | charged hcounts hcancelled hmore hopen => exact ⟨hafter.symm, _, _, rfl, rfl⟩

theorem fits_hear_error {now : Instant} {w : Worker} {cause : Failure} {r : ρ}
    {deeds : List Deed} (hdeeds : Orderly p deeds) (hw : w.preference = p.after (results deeds)) :
    (Desk.hear maxFails scope request now w (.error cause) r deeds).Fits request p := by
  refine fits_hear hdeeds hw fun reply h => ?_
  cases h

theorem fits_judge {now : Instant} {w : Worker} {cause : Failure} {deeds : List Deed}
    (hw : w.preference = p.after (results deeds)) :
    (Desk.judge maxFails scope request now w (.error cause)).Fits request p deeds := by
  have hcase := observed request maxFails false (scope.isExpired now) w (.error cause)
  dsimp only [Desk.judge]
  generalize w.observe request maxFails false (scope.isExpired now) (.error cause) = next at hcase
  cases hcase with
  | free hfree => exact hw
  | charged hcounts hcancelled hmore hopen => exact hw
  | abandoned hcounts hcancelled => exact fun h => absurd rfl (h _)
  | exhausted hcounts hcancelled hover => exact fun h => absurd rfl (h _)

variable [Resolver ρ]

theorem Desk.Fits.turn {d : Desk ρ} (h : d.Fits request p) (now : Instant) :
    (d.turn maxFails scope request now).Fits request p := by
  obtain ⟨stage, r, deeds⟩ := d
  obtain ⟨hdeeds, hstage⟩ := h
  -- a deed that is no result leaves the preference of the next attempt as it is
  have hkeep {d : Deed} (hd : d.result? = none) {q : Preference} (hq : q = p.after (results deeds)) :
      q = p.after (results (deeds ++ [d])) := by
    simpa [hd, results] using hq
  cases stage with
  | ready w =>
    have hw : w.preference = p.after (results deeds) := hstage
    cases hverdict : scope.verdict? now with
    | some cause =>
      simp only [Desk.turn, hverdict]
      exact fits_hear_error hdeeds hw
    | none =>
      simp only [Desk.turn, hverdict]
      exact ⟨hdeeds.concat hw, hkeep rfl hw, deeds, rfl⟩
  | waiting w work =>
    obtain ⟨hw, before, hbefore⟩ := hstage
    cases hverdict : scope.verdict? now with
    | some cause =>
      simp only [Desk.turn, hverdict]
      exact fits_hear_error hdeeds hw
    | none =>
      simp only [Desk.turn, hverdict]
      cases work with
      | none => exact ⟨hdeeds, hw, before, hbefore⟩
      | some finished =>
        cases finished with
        | crashed detail => exact ⟨hdeeds, trivial⟩
        | answered result => exact fits_hear hdeeds hw fun reply _ => ⟨before, hbefore⟩
  | charging w result =>
    obtain ⟨hw, before, cause, rfl, hbefore⟩ := hstage
    exact ⟨hdeeds.concat ⟨before, cause, hbefore⟩, hkeep rfl hw, ⟨cause, rfl⟩,
      deeds, rfl⟩
  | asking w result =>
    obtain ⟨hw, hcause, before, hbefore⟩ := hstage
    by_cases hmax : maxFails = 0
    · simp only [Desk.turn, hmax, if_true]
      exact ⟨hdeeds, hw, hcause⟩
    · simp only [Desk.turn, hmax, if_false]
      exact ⟨hdeeds.concat ⟨before, hbefore⟩, hkeep rfl hw, hcause⟩
  | judging w result =>
    obtain ⟨hw, cause, rfl⟩ := hstage
    exact ⟨hdeeds, fits_judge hw⟩
  | ended ending => exact ⟨hdeeds, hstage⟩

theorem Desk.Fits.turns {d : Desk ρ} (h : d.Fits request p) (nows : List Instant) :
    (d.turns maxFails scope request nows).Fits request p := by
  induction nows generalizing d with
  | nil => exact h
  | cons now nows ih => exact ih (h.turn now)

omit [Resolver ρ] in
theorem fits_ready (request : Request) (p : Preference) (r : ρ) :
    (⟨.ready ⟨p, 0, 0⟩, r, []⟩ : Desk ρ).Fits request p := ⟨orderly_nil, rfl⟩

/-- How the deeds of a worker go over to streams. -/
structure Escalation (request : Request) (p : Preference) (deeds : List Deed)
    (ending? : Option Ending) : Prop where
  /-- Attempts are sent as configured up to the first result that escalates, and over streams
  ever after. -/
  sent : ∀ before q after, deeds = before ++ .sent q :: after → q = p.after (results before)
  once : ∀ before q result between q' result' after,
    deeds = before ++ .sent q :: .heard result ::
      (between ++ .sent q' :: .heard result' :: after) →
    q.escalates result = true → q' = p.forced ∧ q'.escalates result' = false
  /-- Neither a charge nor a request for a probe comes next. -/
  free : ∀ before q result after, deeds = before ++ .sent q :: .heard result :: after →
    q.escalates result = true → ∀ d ∈ after.head?, d.reaches = false
  charged : ∀ before after, deeds = before ++ .charged :: after →
    ∃ earlier cause, before = earlier ++ [.heard (.error cause)]
  asked : ∀ before after, deeds = before ++ .asked :: after →
    ∃ earlier, before = earlier ++ [.charged]
  settled : ∀ outcome, ending? = some (.settled outcome) → Settles request p deeds outcome

omit [Resolver ρ] in
theorem Orderly.free {deeds : List Deed} (h : Orderly p deeds) {before after : List Deed}
    {q : Preference} {result : Except Failure Message} {d : Deed}
    (hsplit : deeds = before ++ .sent q :: .heard result :: d :: after)
    (hescalates : q.escalates result = true) : d.reaches = false := by
  have hdue : Due p (before ++ [.sent q] ++ [.heard result]) d := h _ _ after (by simp [hsplit])
  cases d with
  | sent | heard => rfl
  | charged =>
    obtain ⟨earlier, cause, heq⟩ := hdue
    obtain ⟨-, hlast⟩ := List.append_inj' heq rfl
    cases hlast
    cases hescalates
  | asked =>
    obtain ⟨earlier, heq⟩ := hdue
    obtain ⟨-, hlast⟩ := List.append_inj' heq rfl
    cases hlast

omit [Resolver ρ] in
theorem Desk.Fits.escalation {d : Desk ρ} (h : d.Fits request p) :
    Escalation request p d.deeds d.stage.ending? where
  sent before q after hsplit := h.orderly before _ after hsplit
  once before q result between q' result' after hsplit hescalates := by
    have hq : q = p.after (results before) := h.orderly before _ _ hsplit
    have hq' : q' = p.after (results (before ++ .sent q :: .heard result :: between)) :=
      h.orderly _ (.sent q') (.heard result' :: after) (by simp [hsplit])
    have hmem : result ∈ results (before ++ .sent q :: .heard result :: between) := by
      simp [Deed.result?]
    rw [hq] at hescalates
    rw [p.after_of_mem hescalates hmem] at hq'
    exact ⟨hq', by rw [hq', p.escalates_forced]⟩
  free before q result after hsplit hescalates next hnext := by
    obtain ⟨rest, rfl⟩ := List.head?_eq_some_iff.mp hnext
    exact h.orderly.free hsplit hescalates
  charged before after hsplit := h.orderly before _ after hsplit
  asked before after hsplit := h.orderly before _ after hsplit
  settled outcome hending := by
    have hstage := h.stage
    cases hs : d.stage with
    | ended ending =>
      rw [hs] at hending hstage
      cases hending
      exact hstage
    | ready | waiting | charging | asking | judging =>
      rw [hs] at hending
      cases hending

theorem escalation_of_turns (maxFails : UInt32) (scope : Scope) (request : Request)
    (p : Preference) (r : ρ) (nows : List Instant) :
    let d := (⟨.ready ⟨p, 0, 0⟩, r, []⟩ : Desk ρ).turns maxFails scope request nows
    Escalation request p d.deeds d.stage.ending? :=
  ((fits_ready request p r).turns nows).escalation

/-- A worker goes over to streams once, for good and free of charge, wherever its run stands;
and what the others do makes no difference to it. -/
theorem escalates_once {η : Type} (maxFails : UInt32) (scope : Scope) (request : Request)
    (p : Preference) :
    (∀ (r : ρ) nows, let d := (⟨.ready ⟨p, 0, 0⟩, r, []⟩ : Desk ρ).turns maxFails scope request nows
      Escalation request p d.deeds d.stage.ending?) ∧
    (∀ start (r : ρ) ended, run maxFails scope request ⟨p, 0, 0⟩ start r = some ended →
      ∃ log, logged maxFails scope request ⟨p, 0, 0⟩ start r = some log ∧ log.toRun = ended ∧
        ended.resolver = replay scope request r log.entries ∧
        Escalation request p log.deeds (some ended.ending)) ∧
    ∀ (f : Forwarder ρ η) schedule k d,
      (f.crew.run f.maxFails scope request schedule).desk? k = some d →
      Escalation request f.preference d.deeds d.stage.ending? ∧
      ∀ others other, others[k]? = f.resolvers[k]? →
        Crew.instants k other = Crew.instants k schedule →
        (({ f with resolvers := others }).crew.run f.maxFails scope request other).desk? k =
          some d := by
  refine ⟨escalation_of_turns maxFails scope request p, fun start r ended hrun => ?_,
    fun f schedule k d hd => ?_⟩
  · rw [← map_toRun_logged] at hrun
    obtain ⟨log, hlog, rfl⟩ := Option.map_eq_some_iff.mp hrun
    obtain ⟨nows, -, hturns⟩ := exists_turns_of_logged hlog
    have hdesk := escalation_of_turns maxFails scope request p r nows
    rw [hturns] at hdesk
    exact ⟨log, hlog, rfl, resolver_logged hlog, hdesk⟩
  · obtain ⟨r, hlive, -, rfl⟩ := Forwarder.desk?_crew_of_run hd
    refine ⟨escalation_of_turns f.maxFails scope request f.preference r _,
      fun others other hk hinstants => ?_⟩
    obtain ⟨hr, hdown⟩ := Forwarder.mem_live.mp hlive
    have hlive' : (r, k) ∈ ({ f with resolvers := others }).live :=
      Forwarder.mem_live.mpr ⟨hk.trans hr, hdown⟩
    rw [Crew.desk?_run, Forwarder.desk?_crew hlive', Option.map_some, hinstants]
    rfl

end

end Worker

namespace Rehearsal

open Worker

/-- One resolver answers whole over streams only, the other fails at first. -/
def uneven : Forwarder Resolver Handler where
  resolvers := [
    { address := "10.0.0.1:53", script := [], fallback := ⟨.whole [], 1⟩ },
    { address := "10.0.0.2:53", script := [⟨.fail .timeout, 1⟩], fallback := ⟨.answer 0 false [], 1⟩ }]
  rotation := .sequential
  preference := { preferDatagram := true }

def preferences (deeds : List Deed) : List Preference :=
  deeds.filterMap fun
    | .sent p => some p
    | .heard _ | .charged | .asked => none

theorem escalates_uneven :
    let schedule : List DnsFanout.Turn := [⟨0, 0⟩, ⟨1, 0⟩, ⟨0, 1⟩, ⟨1, 1⟩, ⟨0, 1⟩, ⟨1, 1⟩, ⟨1, 1⟩,
      ⟨1, 1⟩, ⟨1, 1⟩, ⟨0, 2⟩, ⟨1, 2⟩]
    let crew := uneven.crew.run 2 {} rootQuery schedule
    ∃ d d', crew.desk? 0 = some d ∧ crew.desk? 1 = some d' ∧
      preferences d.deeds = [uneven.preference, uneven.preference.forced] ∧
      preferences d'.deeds = [uneven.preference, uneven.preference] ∧
      Escalation rootQuery uneven.preference d.deeds d.stage.ending? ∧
      Escalation rootQuery uneven.preference d'.deeds d'.stage.ending? := by
  intro schedule crew
  obtain ⟨-, -, hcrew⟩ := escalates_once (ρ := Resolver) (η := Handler) 2 {} rootQuery
    uneven.preference
  exact ⟨_, _, rfl, rfl, rfl, rfl, (hcrew uneven schedule 0 _ rfl).1,
    (hcrew uneven schedule 1 _ rfl).1⟩

end Rehearsal

end DnsFanout
