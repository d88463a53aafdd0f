import DnsFanout.Proofs.Crew.Serial
import DnsFanout.Rehearsal.Handler
import DnsFanout.Rehearsal.Resolver

/-! A query does not depend on the order in which its workers take their turns. While the
scope is open, a worker whose resolver answers by its own history does what it would do
alone; so all schedules join the same outcomes, in some order. -/

namespace DnsFanout

open Worker

variable {ρ η : Type} [DnsFanout.Resolver ρ] {maxFails : UInt32} {request : Request}

/-- Every attempt at these resolvers comes to something, and to what is settled by the
resolver and its attempts so far; only the time it takes is left open. -/
structure Steady (request : Request) (I : ρ → Prop) : Prop where
  attempt : ∀ {r : ρ} (p : Preference), I r → ∃ a r', I r' ∧ ∀ now scope,
    scope.verdict? now = none → ∃ t, Resolver.attempt now scope request p r = (some (a, t), r')
  recordFailure : ∀ {r : ρ}, I r → I (Resolver.recordFailure r)
  requestProbe : ∀ {r : ρ}, I r → I (Resolver.requestProbe r)

namespace Steady

variable {I : ρ → Prop} (steady : Steady request I)

include steady

theorem charge {r : ρ} (h : I r) : I (Worker.charge maxFails r) := by
  unfold Worker.charge
  dsimp only
  split
  · exact steady.recordFailure h
  · exact steady.requestProbe (steady.recordFailure h)

theorem attempted {scope : Scope} {w : Worker} {now t : Instant} {r r' : ρ} {a : Attempt}
    (ha : Attempted scope request w now r a t r') (h : I r) : I r' := by
  cases ha with
  | shut hover => exact h
  | ended hopen hr ht =>
    obtain ⟨b, s, hs, hb⟩ := steady.attempt w.preference h
    obtain ⟨u, hu⟩ := hb now scope hopen
    rw [hr] at hu
    exact (Prod.mk.inj hu).2 ▸ hs
  | cut hopen hr hstop ht =>
    obtain ⟨b, s, hs, hb⟩ := steady.attempt w.preference h
    obtain ⟨u, hu⟩ := hb now scope hopen
    rw [hu] at hr
    exact hr ▸ hs

theorem logged_isSome (scope : Scope) (w : Worker) (now : Instant) {r : ρ} (h : I r) :
    (logged maxFails scope request w now r).isSome := by
  fun_induction logged maxFails scope request w now r with
  | case1 w now r r' ha =>
    exfalso
    rw [attempt_eq] at ha
    cases hv : scope.verdict? now with
    | some cause => simp [hv, Scope.race] at ha
    | none =>
      obtain ⟨a, s, -, hb⟩ := steady.attempt w.preference h
      obtain ⟨t, hs⟩ := hb now scope hv
      simp only [hv, hs, Scope.race, Option.isSome_none, Bool.false_eq_true, if_false] at ha
      cases hstop : scope.stop? <;> simp [hstop] at ha
  | case2 => rfl
  | case3 w now r result t r' ha heard w' ho ih =>
    rw [Option.isSome_map]
    exact ih (steady.attempted (attempted_of_attempt ha) h)
  | case4 w now r result t r' ha heard w' ho ih =>
    rw [Option.isSome_map]
    exact ih (steady.charge (steady.attempted (attempted_of_attempt ha) h))
  | case5 => rfl

variable (maxFails) in
/-- While the scope is open the instant of a turn does not matter. -/
theorem turn_eq {scope : Scope} {now : Instant} {d : Desk ρ} (hopen : scope.verdict? now = none)
    (h : I d.resolver) :
    d.turn maxFails scope request now = d.turn maxFails {} request 0 ∧
      I (d.turn maxFails {} request 0).resolver := by
  obtain ⟨hc, he⟩ := Scope.verdict?_eq_none.mp hopen
  have hear (w : Worker) (result : Except Failure Message) :
      Desk.hear maxFails scope request now w result d.resolver d.deeds =
        Desk.hear maxFails {} request 0 w result d.resolver d.deeds := by
    rw [Desk.hear, Desk.hear, hc, he]
    rfl
  obtain ⟨stage, r, deeds⟩ := d
  cases stage with
  | ready w =>
    obtain ⟨a, s, hs, hb⟩ := steady.attempt w.preference h
    obtain ⟨t, ht⟩ := hb now scope hopen
    obtain ⟨u, hu⟩ := hb 0 {} rfl
    simp only [Desk.turn, hopen, Scope.verdict?_unbounded, ht, hu]
    exact ⟨rfl, hs⟩
  | waiting w work =>
    cases work with
    | none =>
      simp only [Desk.turn, hopen, Scope.verdict?_unbounded, true_and]
      exact h
    | some a =>
      cases a with
      | answered result =>
        simp only [Desk.turn, hopen, Scope.verdict?_unbounded]
        exact ⟨hear w result, h⟩
      | crashed detail =>
        simp only [Desk.turn, hopen, Scope.verdict?_unbounded, true_and]
        exact h
  | charging w result => exact ⟨rfl, steady.recordFailure h⟩
  | asking w result =>
    refine ⟨rfl, ?_⟩
    simp only [Desk.turn]
    split
    · exact h
    · exact steady.requestProbe h
  | judging w result =>
    refine ⟨?_, h⟩
    simp only [Desk.turn, Desk.judge, he]
    rfl
  | ended ending => exact ⟨rfl, h⟩

theorem turns_eq {scope : Scope} {nows : List Instant} {d : Desk ρ}
    (hopen : ∀ now ∈ nows, scope.verdict? now = none) (h : I d.resolver) :
    d.turns maxFails scope request nows =
      d.turns maxFails {} request (List.replicate nows.length 0) := by
  induction nows generalizing d with
  | nil => rfl
  | cons now nows ih =>
    obtain ⟨heq, hnext⟩ := steady.turn_eq maxFails (hopen now (by simp)) h
    have hrest := ih (fun u hu => hopen u (List.mem_cons_of_mem _ hu)) hnext
    rw [Desk.turns, List.foldl_cons, heq, ← Desk.turns, hrest]
    rfl

/-- A worker that is left alone long enough ends as its log says, and in no other way. -/
theorem turns_of_logged {w : Worker} {start : Instant} {r : ρ} {log : Log ρ} (h : I r)
    (hlog : logged maxFails {} request w start r = some log) :
    ∃ n, ∀ scope nows, (∀ now ∈ nows, scope.verdict? now = none) →
      (n ≤ nows.length ∨ ((⟨.ready w, r, []⟩ : Desk ρ).turns maxFails scope request
        nows).stage.ending?.isSome) →
      (⟨.ready w, r, []⟩ : Desk ρ).turns maxFails scope request nows =
        ⟨.ended log.ending, log.resolver, log.deeds⟩ := by
  obtain ⟨own, -, hown⟩ := exists_turns_of_logged hlog
  have hfree : ∀ now ∈ own, ({} : Scope).verdict? now = none := fun _ _ => rfl
  have hend : (⟨.ready w, r, []⟩ : Desk ρ).turns maxFails {} request
      (List.replicate own.length 0) = ⟨.ended log.ending, log.resolver, log.deeds⟩ := by
    rw [← steady.turns_eq hfree h]
    exact hown []
  -- a longer row of turns adds nothing, and a shorter one that ends the worker is enough
  refine ⟨own.length, fun scope nows hopen hlong => ?_⟩
  rw [steady.turns_eq hopen h] at hlong ⊢
  by_cases hle : own.length ≤ nows.length
  · obtain ⟨k, hk⟩ := Nat.exists_eq_add_of_le hle
    rw [hk, ← List.replicate_append_replicate, Desk.turns_append, hend,
      Desk.turns_ended]
  · obtain ⟨k, hk⟩ := Nat.exists_eq_add_of_le (Nat.le_of_not_le hle)
    have hended := hlong.resolve_left hle
    rw [hk, ← List.replicate_append_replicate, Desk.turns_append,
      Desk.turns_of_ended _ hended] at hend
    exact hend

end Steady

namespace Crew

/-- What a finished crew has to do with workers that ran alone. -/
structure Agrees (c : Crew ρ) (f : Forwarder ρ η) (alone : List (Log ρ × Nat)) : Prop where
  outcomes : c.outcomes.Perm (alone.map fun x => x.1.ending.outcome (x.2 + 1))
  /-- Each worker did what it does alone, and left its resolver as it does then. -/
  desk : ∀ x ∈ alone, c.desk? x.2 = some ⟨.ended x.1.ending, x.1.resolver, x.1.deeds⟩
  /-- There is no worker for the others, and they are left alone. -/
  other : ∀ k, k ∉ alone.map Prod.snd → c.desk? k = none ∧ c.resolvers[k]? = f.resolvers[k]?
  ok_iff : (∃ m, c.result = .ok m) ↔ ∃ x ∈ alone, ∃ reply,
    x.1.ending = .settled (.success reply) ∧ reply.addresses ≠ []
  answers : ∀ m, c.result = .ok m →
    m.answers.Perm (alone.flatMap fun x => (x.1.ending.outcome (x.2 + 1)).addresses)
  /-- The first failure to be joined is told, or that there was none. -/
  error : ∀ cause, c.result = .error cause →
    c.outcomes.findSome? Outcome.failure? = some cause ∨
      (∀ x ∈ alone, (x.1.ending.outcome (x.2 + 1)).failure? = none) ∧ cause = .noHealthyResolver

omit [Resolver ρ] in
theorem endings_of_desks {c : Crew ρ} {alone : List (Log ρ × Nat)}
    (hplaces : (c.posts.map Post.place).Perm (alone.map Prod.snd))
    (h : ∀ x ∈ alone, c.desk? x.2 = some ⟨.ended x.1.ending, x.1.resolver, x.1.deeds⟩) :
    c.endings.Perm (alone.map fun x => (x.2, x.1.ending)) := by
  let told (k : Nat) : Option (Nat × Ending) :=
    (c.desk? k).bind fun d => d.stage.ending?.map (k, ·)
  have hposts : c.endings = (c.posts.map Post.place).filterMap told := by
    rw [List.filterMap_map]
    refine List.filterMap_congr fun p hp => ?_
    obtain ⟨r, -, hd⟩ := desk?_of_mem hp
    simp [told, hd]
  have halone : (alone.map Prod.snd).filterMap told = alone.map fun x => (x.2, x.1.ending) := by
    rw [List.filterMap_map, ← List.filterMap_eq_map]
    refine List.filterMap_congr fun x hx => ?_
    simp [told, h x hx]
  rw [hposts, ← halone]
  exact hplaces.filterMap told

end Crew

section

variable {I : ρ → Prop} {f : Forwarder ρ η} {start : Instant} {alone : List (Log ρ × Nat)}

/-- Enough turns, or any number of turns that end it, bring a worker to what it does
alone. -/
theorem Steady.desk_alone (steady : Steady request I) (hI : ∀ r ∈ f.resolvers, I r)
    (h : f.Alone {} request start alone) {x : Log ρ × Nat} (hx : x ∈ alone) :
    ∃ n, ∀ scope schedule, (∀ t ∈ schedule, scope.verdict? t.now = none) →
      (n ≤ (Crew.instants x.2 schedule).length ∨
        (f.crew.run f.maxFails scope request schedule).IsDone) →
      (f.crew.run f.maxFails scope request schedule).desk? x.2 =
        some ⟨.ended x.1.ending, x.1.resolver, x.1.deeds⟩ := by
  obtain ⟨r, hr, hlog, -⟩ := h.logged x hx
  obtain ⟨r', hr', hdown⟩ := (h.place_iff x.2).mp (List.mem_map_of_mem hx)
  obtain rfl : r = r' := Option.some.inj (hr.symm.trans hr')
  have hcrew : f.crew.desk? x.2 = some ⟨.ready f.fresh, r, []⟩ :=
    Forwarder.desk?_crew (Forwarder.mem_live.mpr ⟨hr, hdown⟩)
  obtain ⟨n, hn⟩ := steady.turns_of_logged (hI r (List.mem_of_getElem? hr)) hlog
  refine ⟨n, fun scope schedule hopen hlong => ?_⟩
  have hdesk : (f.crew.run f.maxFails scope request schedule).desk? x.2 =
      some ((⟨.ready f.fresh, r, []⟩ : Desk ρ).turns f.maxFails scope request
        (Crew.instants x.2 schedule)) := by
    rw [Crew.desk?_run, hcrew, Option.map_some]
  rw [hdesk, hn scope _ ?opens ?long]
  case opens =>
    intro now hnow
    obtain ⟨t, ht, rfl⟩ := List.mem_map.mp hnow
    exact hopen t (List.mem_of_mem_filter ht)
  case long =>
    rcases hlong with hlong | hdone
    · exact .inl hlong
    · exact .inr (Crew.isDone_iff.mp hdone _ _ hdesk)

theorem Steady.agrees (steady : Steady request I) (hI : ∀ r ∈ f.resolvers, I r)
    (h : f.Alone {} request start alone) {scope : Scope} {schedule : List Turn}
    (hopen : ∀ t ∈ schedule, scope.verdict? t.now = none)
    (hdone : (f.crew.run f.maxFails scope request schedule).IsDone) :
    (f.crew.run f.maxFails scope request schedule).Agrees f alone := by
  let c := f.crew.run f.maxFails scope request schedule
  have hplaces : (c.posts.map Post.place).Perm (alone.map Prod.snd) := by
    rw [Crew.places_run]
    exact h.places_perm
  have hdesk : ∀ x ∈ alone, c.desk? x.2 = some ⟨.ended x.1.ending, x.1.resolver, x.1.deeds⟩ := by
    intro x hx
    obtain ⟨n, hn⟩ := steady.desk_alone hI h hx
    exact hn scope schedule hopen (.inr hdone)
  have hjoined : c.joined.Perm (alone.map fun x => (x.2, x.1.ending)) :=
    (Crew.joined_run schedule f.crew f.joined_crew).trans (Crew.endings_of_desks hplaces hdesk)
  have houtcomes : c.outcomes.Perm (alone.map fun x => x.1.ending.outcome (x.2 + 1)) := by
    have hmap := hjoined.map fun x => x.2.outcome (x.1 + 1)
    rwa [List.map_map] at hmap
  refine ⟨houtcomes, hdesk, fun k hk => ?_, ?_, fun m hm => ?_, fun cause hcause => ?_⟩
  · have hnot : k ∉ f.crew.posts.map Post.place := fun hmem => hk (h.places_perm.mem_iff.mp hmem)
    refine ⟨Crew.desk?_eq_none ?_, Crew.resolvers_run_other schedule f.crew hnot⟩
    rwa [Crew.places_run]
  · have hsuccess (x : Log ρ × Nat) (reply : Message) :
        x.1.ending.outcome (x.2 + 1) = .success reply ↔
          x.1.ending = .settled (.success reply) := by
      cases x.1.ending <;> simp [Ending.outcome]
    rw [Crew.result, merge_isOk_iff]
    constructor
    · rintro ⟨reply, hin, hne⟩
      obtain ⟨x, hx, he⟩ := List.mem_map.mp (houtcomes.mem_iff.mp hin)
      exact ⟨x, hx, reply, (hsuccess x reply).mp he, hne⟩
    · rintro ⟨x, hx, reply, he, hne⟩
      refine ⟨reply, houtcomes.mem_iff.mpr (List.mem_map.mpr ⟨x, hx, ?_⟩), hne⟩
      exact (hsuccess x reply).mpr he
  · have hflat := houtcomes.flatMap_right Outcome.addresses
    rw [List.flatMap_map] at hflat
    rwa [merge_answers hm]
  · rcases merge_eq_error hcause with hfirst | ⟨hnone, rfl⟩
    · exact .inl hfirst
    · refine .inr ⟨fun x hx => ?_, rfl⟩
      exact List.findSome?_eq_none_iff.mp hnone _
        (houtcomes.mem_iff.mpr (List.mem_map.mpr ⟨x, hx, rfl⟩))

theorem Steady.exists_enough (steady : Steady request I) (hI : ∀ r ∈ f.resolvers, I r)
    (h : f.Alone {} request start alone) :
    ∃ n, ∀ scope schedule, (∀ t ∈ schedule, scope.verdict? t.now = none) →
      (∀ x ∈ alone, n ≤ (Crew.instants x.2 schedule).length) →
      (f.crew.run f.maxFails scope request schedule).IsDone := by
  have hbound (xs : List (Log ρ × Nat)) (hxs : ∀ x ∈ xs, x ∈ alone) :
      ∃ n, ∀ scope schedule, (∀ t ∈ schedule, scope.verdict? t.now = none) → ∀ x ∈ xs,
        n ≤ (Crew.instants x.2 schedule).length →
        (f.crew.run f.maxFails scope request schedule).desk? x.2 =
          some ⟨.ended x.1.ending, x.1.resolver, x.1.deeds⟩ := by
    induction xs with
    | nil => exact ⟨0, fun scope schedule hopen x hx => nomatch hx⟩
    | cons x xs ih =>
      obtain ⟨m, hm⟩ := ih fun y hy => hxs y (List.mem_cons_of_mem _ hy)
      obtain ⟨n, hn⟩ := steady.desk_alone hI h (hxs x (List.mem_cons_self))
      refine ⟨max n m, fun scope schedule hopen y hy hlong => ?_⟩
      rcases List.mem_cons.mp hy with rfl | hy
      · exact hn scope schedule hopen (.inl (Nat.le_trans (Nat.le_max_left n m) hlong))
      · exact hm scope schedule hopen y hy (Nat.le_trans (Nat.le_max_right n m) hlong)
  obtain ⟨n, hn⟩ := hbound alone fun _ hx => hx
  refine ⟨n, fun scope schedule hopen hlong p hp => ?_⟩
  have hplace : p.place ∈ alone.map Prod.snd := by
    have hmem := List.mem_map_of_mem (f := Post.place) hp
    rw [Crew.places_run] at hmem
    exact h.places_perm.mem_iff.mp hmem
  obtain ⟨x, hx, hxp⟩ := List.mem_map.mp hplace
  obtain ⟨r, -, hd⟩ := Crew.desk?_of_mem hp
  rw [← hxp, hn scope schedule hopen x hx (hlong x hx)] at hd
  have hstage : Stage.ended x.1.ending = p.stage := congrArg Desk.stage (Option.some.inj hd)
  rw [← hstage]
  rfl

end

/-- Fan-out is independent of scheduling. While the scope is open, every schedule that ends
the workers joins, in some order, what they come to alone; turns enough end them; and what
the forwarder gives is what one of these schedules gives. -/
theorem fanOut_independent {I : ρ → Prop} (steady : Steady request I) (f : Forwarder ρ η)
    (hI : ∀ r ∈ f.resolvers, I r) (start : Instant) :
    ∃ alone, f.Alone {} request start alone ∧
      (∀ scope schedule, (∀ t ∈ schedule, scope.verdict? t.now = none) →
        (f.crew.run f.maxFails scope request schedule).IsDone →
        (f.crew.run f.maxFails scope request schedule).Agrees f alone) ∧
      (∃ n, ∀ scope schedule, (∀ t ∈ schedule, scope.verdict? t.now = none) →
        (∀ x ∈ alone, n ≤ (Crew.instants x.2 schedule).length) →
        (f.crew.run f.maxFails scope request schedule).IsDone) ∧
      ∀ scope, ∃ done, f.forward start scope request = some done ∧
        (scope.verdict? done.finished = none → ∃ schedule,
          (∀ t ∈ schedule, scope.verdict? t.now = none) ∧
          (f.crew.run f.maxFails scope request schedule).IsDone ∧
          (f.crew.run f.maxFails scope request schedule).result = done.result ∧
          (f.crew.run f.maxFails scope request schedule).resolvers = done.forwarder.resolvers) := by
  have hlogs (scope : Scope) : ∃ logs, f.logs scope request start = some logs :=
    Forwarder.exists_logs fun r hr => steady.logged_isSome scope f.fresh start (hI r hr)
  obtain ⟨alone, halone⟩ := hlogs {}
  have h := Forwarder.alone_of_logs halone
  refine ⟨alone, h, fun scope schedule hopen hdone => steady.agrees hI h hopen hdone,
    steady.exists_enough hI h, fun scope => ?_⟩
  obtain ⟨logs, hscope⟩ := hlogs scope
  obtain ⟨done, hdone⟩ : ∃ done, f.forward start scope request = some done := by
    rw [Forwarder.forward_eq, hscope]
    exact ⟨_, rfl⟩
  obtain ⟨schedule, hopen, hrest⟩ := Forwarder.exists_schedule hdone
  exact ⟨done, hdone, fun hv => ⟨schedule, hopen hv, hrest⟩⟩

namespace Rehearsal

/-- No attempt at the resolver hangs. -/
def Resolver.Answering (request : Request) (r : Resolver) : Prop :=
  ∀ step ∈ r.fallback :: r.script, ∀ preference, (step.cue.attempt request preference).isSome

theorem Resolver.steady (request : Request) : Steady request (Resolver.Answering request) where
  attempt := by
    intro r preference h
    cases hscript : r.script with
    | nil =>
      obtain ⟨a, ha⟩ := Option.isSome_iff_exists.mp (h r.fallback (by simp) preference)
      refine ⟨a, { r with calls := r.calls + 1, sent := r.sent ++ [preference] }, h,
        fun now scope _ => ⟨now + r.fallback.delay, ?_⟩⟩
      simp [DnsFanout.Resolver.attempt, Resolver.attempt, hscript, ha]
    | cons step rest =>
      obtain ⟨a, ha⟩ := Option.isSome_iff_exists.mp (h step (by simp [hscript]) preference)
      refine ⟨a, { r with script := rest, calls := r.calls + 1, sent := r.sent ++ [preference] },
        fun other hother => h other ?_, fun now scope _ => ⟨now + step.delay, ?_⟩⟩
      · rw [hscript]
        rcases List.mem_cons.mp hother with rfl | hrest
        · exact List.mem_cons_self
        · exact List.mem_cons_of_mem _ (List.mem_cons_of_mem _ hrest)
      · simp [DnsFanout.Resolver.attempt, Resolver.attempt, hscript, ha]
  recordFailure h := h
  requestProbe := by
    intro r h
    show Answering request (Resolver.requestProbe r)
    unfold Resolver.requestProbe
    split <;> exact h

/-- An address after a failure, a crash, and a resolver that is down. -/
def trio : Forwarder Resolver Unit where
  resolvers := [
    { address := "10.0.0.1:53", script := [⟨.fail .timeout, 5⟩],
      fallback := ⟨.answer 0 false [⟨Rehearsal.Handler.address Name.root 1, false⟩], 10⟩ },
    { address := "10.0.0.2:53", script := [], fallback := ⟨.crash, 1⟩ },
    { address := "10.0.0.3:53", script := [], fallback := ⟨.fail .timeout, 1⟩,
      down := some true }]
  rotation := .roundRobin 1

theorem fanOut_trio : (∀ r ∈ trio.resolvers, r.Answering rootQuery) ∧
    ∃ alone, trio.Alone {} rootQuery 0 alone ∧ ∀ schedule,
      (trio.crew.run 2 {} rootQuery schedule).IsDone →
      (trio.crew.run 2 {} rootQuery schedule).Agrees trio alone := by
  have hanswering : ∀ r ∈ trio.resolvers, r.Answering rootQuery := by
    simp [trio, Resolver.Answering, Cue.attempt]
  obtain ⟨alone, halone, hagrees, -⟩ :=
    fanOut_independent (Resolver.steady rootQuery) trio hanswering 0
  exact ⟨hanswering, alone, halone, fun schedule => hagrees {} schedule fun _ _ => rfl⟩

end Rehearsal

end DnsFanout
