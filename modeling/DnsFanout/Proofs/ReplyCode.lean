import DnsFanout.Proofs.HandlerContract

/-! The code of a merged reply is that of the answer joined last. So it is the code that a
forwarder reports only if that answer has it, and in all orders only if all answers do. -/

namespace DnsFanout

open Worker

namespace Crew

variable {ρ : Type} [DnsFanout.Resolver ρ] {maxFails : UInt32} {scope : Scope} {request : Request}
  {schedule other : List Turn}

/-- Every worker has the same turns in both schedules; only the order among the workers
may differ. -/
def SameTurns (schedule other : List Turn) : Prop := ∀ k, instants k schedule = instants k other

theorem desk?_of_sameTurns (h : SameTurns schedule other) (c : Crew ρ) (k : Nat) :
    (c.run maxFails scope request schedule).desk? k =
      (c.run maxFails scope request other).desk? k := by
  rw [desk?_run, desk?_run, h k]

theorem isDone_of_sameTurns {c : Crew ρ} (h : SameTurns schedule other)
    (hdone : (c.run maxFails scope request other).IsDone) :
    (c.run maxFails scope request schedule).IsDone := by
  rw [isDone_iff] at hdone ⊢
  intro k d hd
  exact hdone k d (desk?_of_sameTurns h c k ▸ hd)

/-- All turns of one worker come last. -/
def putOff (k : Nat) (schedule : List Turn) : List Turn :=
  schedule.filter (·.place ≠ k) ++ solo k (instants k schedule)

theorem instants_others (k : Nat) (schedule : List Turn) :
    instants k (schedule.filter (·.place ≠ k)) = [] := by
  simp [instants, List.filter_filter]

theorem sameTurns_putOff (k : Nat) (schedule : List Turn) :
    SameTurns (putOff k schedule) schedule := by
  intro j
  have happend (a b : List Turn) : instants j (a ++ b) = instants j a ++ instants j b := by
    simp [instants]
  rw [putOff, happend]
  by_cases hj : j = k
  · rw [hj, instants_others, instants_solo, List.nil_append]
  · rw [instants_solo_other (Ne.symm hj), List.append_nil, instants, List.filter_filter, instants]
    congr 1
    refine List.filter_congr fun t _ => ?_
    by_cases ht : t.place = j
    · simp [ht, hj]
    · simp [ht]

/-- A worker whose turns are put off is joined last. -/
theorem outcomes_putOff {c : Crew ρ} {k : Nat} {d e : Desk ρ} {ending : Ending}
    (hd : c.desk? k = some d) (hstart : d.stage.ending? = none)
    (he : (c.run maxFails scope request schedule).desk? k = some e)
    (hend : e.stage = .ended ending) :
    ∃ before, (c.run maxFails scope request (putOff k schedule)).outcomes =
      before ++ [ending.outcome (k + 1)] := by
  let first := c.run maxFails scope request (schedule.filter (·.place ≠ k))
  have hfirst : first.desk? k = some d := by
    rw [desk?_run, instants_others, hd]
    rfl
  -- from here the worker takes the turns that it has in the schedule, undisturbed
  obtain ⟨hjoined, -⟩ := run_solo maxFails scope request (instants k schedule) hfirst
  rw [desk?_run, hd] at he
  have hturns : d.turns maxFails scope request (instants k schedule) = e := Option.some.inj he
  have hlast : newly k d.stage e.stage = [(k, ending)] := by simp [newly, hstart, hend]
  refine ⟨first.outcomes, ?_⟩
  rw [putOff, run_append, outcomes, hjoined, hturns, hlast, List.map_append]
  rfl

end Crew

namespace Forwarder

open Crew

variable {ρ η : Type} [DnsFanout.Resolver ρ] {f : Forwarder ρ η} {scope : Scope}
  {request : Request} {schedule other : List Turn}

theorem mem_outcomes_of_sameTurns (h : SameTurns schedule other) {outcome : Outcome} :
    outcome ∈ (f.crew.run f.maxFails scope request schedule).outcomes ↔
      outcome ∈ (f.crew.run f.maxFails scope request other).outcomes := by
  simp only [mem_outcomes_run, Crew.desk?_of_sameTurns h]

/-- Any answer may be the last one: the workers take the same turns, that of the answer
after all others. -/
theorem exists_last {reply : Message} (hne : reply.addresses ≠ [])
    (h : .success reply ∈ (f.crew.run f.maxFails scope request schedule).outcomes) :
    ∃ other, SameTurns other schedule ∧
      lastAnswer? (f.crew.run f.maxFails scope request other).outcomes = some reply := by
  obtain ⟨k, e, ending, he, hend, houtcome⟩ := mem_outcomes_run.mp h
  obtain ⟨r, -, hd, -⟩ := desk?_crew_of_run he
  obtain ⟨before, hbefore⟩ := Crew.outcomes_putOff hd rfl he hend
  refine ⟨putOff k schedule, sameTurns_putOff k schedule, ?_⟩
  rw [hbefore, houtcome]
  exact lastAnswer?_concat hne before

theorem rcode_of_result {m : Message}
    (h : (f.crew.run f.maxFails scope request schedule).result = .ok m) :
    ∃ frame, lastAnswer? (f.crew.run f.maxFails scope request schedule).outcomes = some frame ∧
      m.rcode = frame.rcode := by
  obtain ⟨frame, hframe, rfl⟩ := merge_eq_ok_iff.mp h
  exact ⟨frame, hframe, rfl⟩

/-- The workers of a schedule give a reply without an error in every order, exactly if no
answer with addresses has one. -/
theorem noError_in_all_orders_iff
    (hdone : (f.crew.run f.maxFails scope request schedule).IsDone) :
    (∀ other m, SameTurns other schedule →
      (f.crew.run f.maxFails scope request other).IsDone →
      (f.crew.run f.maxFails scope request other).result = .ok m →
      m.rcode = ResponseCode.noError) ↔
    ∀ reply, .success reply ∈ (f.crew.run f.maxFails scope request schedule).outcomes →
      reply.addresses ≠ [] → reply.rcode = ResponseCode.noError := by
  constructor
  · intro hall reply hin hne
    -- with its worker put off, the answer gives its code to the reply
    obtain ⟨other, hsame, hlast⟩ := exists_last hne hin
    let outcomes := (f.crew.run f.maxFails scope request other).outcomes
    have hresult : merge outcomes =
        .ok { reply with answers := outcomes.flatMap Outcome.addresses } :=
      merge_eq_ok_iff.mpr ⟨reply, hlast, rfl⟩
    have hcode := hall other _ hsame (Crew.isDone_of_sameTurns hsame hdone) hresult
    exact hcode
  · intro hclean other m hsame _ hresult
    obtain ⟨frame, hframe, hcode⟩ := rcode_of_result hresult
    obtain ⟨hin, hne⟩ := lastAnswer?_mem hframe
    rw [hcode]
    exact hclean frame ((mem_outcomes_of_sameTurns hsame).mp hin) hne

/-- A reply has the code of the answer joined last, and the forwarder reports success
whatever that is. All orders give a reply without an error exactly if no answer has one. -/
theorem reply_code [DnsFanout.Handler η] (f : Forwarder ρ η) (start : Instant) (scope : Scope)
    (request : Request) :
    (∀ schedule m, (f.crew.run f.maxFails scope request schedule).result = .ok m →
      ∃ frame, lastAnswer? (f.crew.run f.maxFails scope request schedule).outcomes = some frame ∧
        m.rcode = frame.rcode) ∧
    (∀ schedule, (f.crew.run f.maxFails scope request schedule).IsDone →
      ((∀ other m, SameTurns other schedule →
        (f.crew.run f.maxFails scope request other).IsDone →
        (f.crew.run f.maxFails scope request other).result = .ok m →
        m.rcode = ResponseCode.noError) ↔
      ∀ reply, .success reply ∈ (f.crew.run f.maxFails scope request schedule).outcomes →
        reply.addresses ≠ [] → reply.rcode = ResponseCode.noError)) ∧
    ∀ fan m, f.forward start scope request = some fan → fan.result = .ok m →
      (∃ schedule, (f.crew.run f.maxFails scope request schedule).IsDone ∧
        (f.crew.run f.maxFails scope request schedule).result = .ok m) ∧
      ∀ sink, f.admission.admitsRequest request = true →
        ∃ done, f.process start scope sink request = some done ∧
          done.code = .ok ResponseCode.noError := by
  refine ⟨fun schedule m h => rcode_of_result h, fun schedule h => noError_in_all_orders_iff h,
    fun fan m hfan hresult => ⟨?_, fun sink hadmits => ?_⟩⟩
  · obtain ⟨schedule, -, hdone, hsame, -⟩ := exists_schedule hfan
    exact ⟨schedule, hdone, hsame.trans hresult⟩
  · rw [process_admitted hadmits, hfan, Option.map_some, hresult]
    exact ⟨_, rfl, rfl⟩

end Forwarder

namespace Rehearsal

/-- An answer that comes with the code of a name that does not exist. -/
def denial : Message := { rootAnswer with rcode := .ofNat 3 }

def denying : Resolver where
  address := "10.0.0.2:53"
  script := []
  fallback := ⟨.reply denial, 1⟩

/-- One resolver answers, and the other denies the name and answers all the same. -/
def discordant : Forwarder Resolver Handler where
  resolvers := [answering, denying]
  rotation := .sequential

/-- The answer without an error is joined last here, but it need not be. -/
theorem code_discordant :
    let schedule : List DnsFanout.Turn := [⟨0, 0⟩, ⟨1, 0⟩, ⟨1, 1⟩, ⟨0, 10⟩]
    let crew (schedule : List DnsFanout.Turn) := discordant.crew.run 2 {} rootQuery schedule
    (crew schedule).IsDone ∧
      (∃ m, (crew schedule).result = .ok m ∧ m.rcode = ResponseCode.noError) ∧
      ∃ other m, Crew.SameTurns other schedule ∧ (crew other).IsDone ∧
        (crew other).result = .ok m ∧ m.rcode ≠ ResponseCode.noError := by
  intro schedule crew
  have hdone : (crew schedule).IsDone :=
    show ∀ p ∈ (crew schedule).posts, p.stage.ending?.isSome = true by decide
  have houtcomes : (crew schedule).outcomes = [.success denial, .success rootAnswer] := rfl
  refine ⟨hdone, ⟨_, rfl, rfl⟩, ?_⟩
  obtain ⟨-, horders, -⟩ := Forwarder.reply_code discordant 0 {} rootQuery
  have hdenial : .success denial ∈ (crew schedule).outcomes := houtcomes ▸ List.mem_cons_self
  by_contra hnone
  have hclean := (horders schedule hdone).mp fun other m hsame hother hresult => by
    by_contra hcode
    exact hnone ⟨other, m, hsame, hother, hresult, hcode⟩
  exact absurd (hclean denial hdenial (by decide)) (by decide)

/-- The only resolver denies the name, and its denial is passed on as a success. -/
theorem denial_solitary : ∃ fan done, (solitary denying).forward 0 {} rootQuery = some fan ∧
    fan.result = .ok denial ∧ denial.rcode ≠ ResponseCode.noError ∧
    (solitary denying).process 0 {} Sink.taking rootQuery = some done ∧
    done.code = .ok ResponseCode.noError ∧ done.written = [denial] := by
  obtain ⟨fan, hfan, hresult⟩ := forward_solitary (r := denying) rfl (run_of_done rfl rfl)
  have hadmits : (solitary denying).admission.admitsRequest rootQuery = true := by decide
  have hmerged : fan.result = .ok denial := hresult
  have hprocess : (solitary denying).process 0 {} Sink.taking rootQuery =
      some ⟨.ok ResponseCode.noError, [denial], fan.finished, fan.forwarder⟩ := by
    rw [Forwarder.process_admitted hadmits, hfan, Option.map_some, hmerged]
    rfl
  exact ⟨fan, _, hfan, hmerged, by decide, hprocess, rfl, rfl⟩

end Rehearsal

end DnsFanout
