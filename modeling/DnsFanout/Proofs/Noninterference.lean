import DnsFanout.Proofs.Correlation
import DnsFanout.Proofs.Strays
import DnsFanout.Rehearsal.Handler
import DnsFanout.Rehearsal.Resolver

/-! Only data that belongs to the query comes through, and nothing of the rest shows:
under every schedule, stray replies may be swapped for others. -/

namespace DnsFanout

open Worker

variable {ρ σ η : Type} [DnsFanout.Resolver ρ] [DnsFanout.Resolver σ] {maxFails : UInt32}
  {scope : Scope} {request : Request}

/-- Workers at the same point, told apart by the stray replies they wait for at most. -/
inductive Worker.Stage.Alike (request : Request) : Stage → Stage → Prop
  | same (stage : Stage) : Alike request stage stage
  | waiting (w : Worker) {a b : Attempt} (h : Attempt.Alike request a b) :
    Alike request (.waiting w (some a)) (.waiting w (some b))

theorem Worker.Stage.Alike.ending? {before after : Stage}
    (h : Stage.Alike request before after) : before.ending? = after.ending? := by
  cases h <;> rfl

structure Worker.Desk.Alike (request : Request) (R : ρ → σ → Prop) (d : Desk ρ) (e : Desk σ) :
    Prop where
  stage : Stage.Alike request d.stage e.stage
  resolver : R d.resolver e.resolver

/-- Crews that nobody can tell apart by what they joined. -/
structure Crew.Alike (request : Request) (R : ρ → σ → Prop) (b : Crew ρ) (c : Crew σ) :
    Prop where
  joined : b.joined = c.joined
  desk : ∀ k, Option.Rel (Desk.Alike request R) (b.desk? k) (c.desk? k)

namespace AlikeButStrays

variable {R : ρ → σ → Prop} (alike : AlikeButStrays request R)

omit [DnsFanout.Resolver ρ] [DnsFanout.Resolver σ] in
theorem hear {now : Instant} {w : Worker} {result other : Except Failure Message} {r : ρ} {s : σ}
    {deeds deeds' : List Deed} (h : Attempt.Alike request (.answered result) (.answered other))
    (hR : R r s) : Desk.Alike request R (Desk.hear maxFails scope request now w result r deeds)
      (Desk.hear maxFails scope request now w other s deeds') := by
  cases h with
  | same => exact ⟨.same _, hR⟩
  | stray h h' =>
    refine ⟨?_, hR⟩
    rw [Desk.hear, Desk.hear, observe_stray h, observe_stray h']
    exact .same _

theorem turn_waiting (now : Instant) (w : Worker) {a b : Attempt} {r : ρ} {s : σ}
    {deeds deeds' : List Deed} (h : Attempt.Alike request a b) (hR : R r s) :
    Desk.Alike request R
      ((⟨.waiting w (some a), r, deeds⟩ : Desk ρ).turn maxFails scope request now)
      ((⟨.waiting w (some b), s, deeds'⟩ : Desk σ).turn maxFails scope request now) := by
  cases hv : scope.verdict? now with
  | some cause =>
    simp only [Desk.turn, hv]
    exact hear (.same _) hR
  | none =>
    cases h with
    | stray h h' =>
      simp only [Desk.turn, hv]
      exact hear (.stray h h') hR
    | same =>
      cases a with
      | answered result =>
        simp only [Desk.turn, hv]
        exact hear (.same _) hR
      | crashed detail =>
        simp only [Desk.turn, hv]
        exact ⟨.same _, hR⟩

include alike

theorem turn_ready (now : Instant) (w : Worker) {r : ρ} {s : σ} {deeds deeds' : List Deed}
    (hR : R r s) : Desk.Alike request R ((⟨.ready w, r, deeds⟩ : Desk ρ).turn maxFails scope request now)
      ((⟨.ready w, s, deeds'⟩ : Desk σ).turn maxFails scope request now) := by
  cases hv : scope.verdict? now with
  | some cause =>
    simp only [Desk.turn, hv]
    exact hear (.same _) hR
  | none =>
    obtain ⟨hwork, hnext⟩ := alike.attempt now scope w.preference hR
    simp only [Desk.turn, hv]
    refine ⟨?_, hnext⟩
    generalize (Resolver.attempt now scope request w.preference r).1 = x,
      (Resolver.attempt now scope request w.preference s).1 = y at hwork
    cases hwork with
    | none => exact .same _
    | some hends => exact .waiting w hends.1

theorem turn (now : Instant) {d : Desk ρ} {e : Desk σ} (h : Desk.Alike request R d e) :
    Desk.Alike request R (d.turn maxFails scope request now)
      (e.turn maxFails scope request now) := by
  obtain ⟨stage, r, deeds⟩ := d
  obtain ⟨stage', s, deeds'⟩ := e
  obtain ⟨hstage, hR⟩ := h
  dsimp only at hstage hR
  cases hstage with
  | waiting w h => exact turn_waiting now w h hR
  | same =>
    cases stage with
    | ready w => exact alike.turn_ready now w hR
    | waiting w work =>
      cases work with
      | some a => exact turn_waiting now w (.same a) hR
      | none =>
        cases hv : scope.verdict? now with
        | some cause =>
          simp only [Desk.turn, hv]
          exact hear (.same _) hR
        | none =>
          simp only [Desk.turn, hv]
          exact ⟨.same _, hR⟩
    | charging w result => exact ⟨.same _, alike.recordFailure hR⟩
    | asking w result =>
      simp only [Desk.turn]
      split
      · exact ⟨.same _, hR⟩
      · exact ⟨.same _, alike.requestProbe hR⟩
    | judging w result => exact ⟨.same _, hR⟩
    | ended ending => exact ⟨.same _, hR⟩

theorem crewTurn {b : Crew ρ} {c : Crew σ} (t : Turn) (h : Crew.Alike request R b c) :
    Crew.Alike request R (b.turn maxFails scope request t) (c.turn maxFails scope request t) := by
  constructor
  case joined =>
    have hdesk := h.desk t.place
    rcases hb : b.desk? t.place with - | d <;> rcases hc : c.desk? t.place with - | e
    all_goals rw [hb, hc] at hdesk
    · rw [Crew.turn_of_none hb, Crew.turn_of_none hc, h.joined]
    · cases hdesk
    · cases hdesk
    · rcases hdesk with hd | -
      have hnext : Desk.Alike request R (d.turn maxFails scope request t.now)
          (e.turn maxFails scope request t.now) := alike.turn t.now hd
      rw [Crew.turn_of_desk? hb, Crew.turn_of_desk? hc]
      simp only [Crew.put, Crew.newly, h.joined, hd.stage.ending?, hnext.stage.ending?]
  case desk =>
    intro k
    rw [Crew.desk?_turn, Crew.desk?_turn]
    have hdesk := h.desk k
    generalize b.desk? k = x, c.desk? k = y at hdesk
    split
    · cases hdesk with
      | none => exact .none
      | some hd => exact .some (alike.turn t.now hd)
    · exact hdesk

theorem crewRun (schedule : List Turn) {b : Crew ρ} {c : Crew σ} (h : Crew.Alike request R b c) :
    Crew.Alike request R (b.run maxFails scope request schedule)
      (c.run maxFails scope request schedule) := by
  induction schedule generalizing b c with
  | nil => exact h
  | cons t schedule ih => exact ih (alike.crewTurn t h)

theorem crew {f : Forwarder ρ η} {others : List σ} (h : List.Forall₂ R f.resolvers others) :
    Crew.Alike request R f.crew (f.withResolvers others).crew := by
  obtain ⟨pairs, hlive, hothers, hR⟩ := Forwarder.exists_live_alike alike h
  refine ⟨rfl, fun k => ?_⟩
  by_cases hk : k ∈ pairs.map Prod.snd
  · obtain ⟨pair, hpair, rfl⟩ := List.mem_map.mp hk
    have hfirst : (pair.1.1, pair.2) ∈ f.live := hlive ▸ List.mem_map.mpr ⟨pair, hpair, rfl⟩
    have hsecond : (pair.1.2, pair.2) ∈ (f.withResolvers others).live :=
      hothers ▸ List.mem_map.mpr ⟨pair, hpair, rfl⟩
    rw [Forwarder.desk?_crew hfirst, Forwarder.desk?_crew hsecond]
    exact .some ⟨.same _, hR pair hpair⟩
  · have hfirst : f.crew.desk? k = none := by
      refine Crew.desk?_eq_none ?_
      rwa [Forwarder.places_crew, hlive, List.map_map]
    have hsecond : (f.withResolvers others).crew.desk? k = none := by
      refine Crew.desk?_eq_none ?_
      rwa [Forwarder.places_crew, hothers, List.map_map]
    rw [hfirst, hsecond]
    exact .none

end AlikeButStrays

omit [DnsFanout.Resolver ρ] [DnsFanout.Resolver σ] in
theorem Crew.Alike.isDone_iff {R : ρ → σ → Prop} {b : Crew ρ} {c : Crew σ}
    (h : Crew.Alike request R b c) : b.IsDone ↔ c.IsDone := by
  rw [Crew.isDone_iff, Crew.isDone_iff]
  constructor
  · intro hb k e he
    have hdesk := h.desk k
    rw [he] at hdesk
    rcases hd : b.desk? k with - | d
    · rw [hd] at hdesk
      cases hdesk
    · rw [hd] at hdesk
      cases hdesk with
      | some halike => exact halike.stage.ending? ▸ hb k d hd
  · intro hc k d hd
    have hdesk := h.desk k
    rw [hd] at hdesk
    rcases he : c.desk? k with - | e
    · rw [he] at hdesk
      cases hdesk
    · rw [he] at hdesk
      cases hdesk with
      | some halike => exact halike.stage.ending?.symm ▸ hc k e he

/-- Only data that belongs to the query reaches the client. However the workers take their
turns, a reply is vouched for by what live resolvers gave last; and other stray replies in
the place of stray ones change nothing. -/
theorem only_correlated_data (request : Request) (f : Forwarder ρ η) (scope : Scope)
    (start : Instant) :
    (∀ schedule reply, (f.crew.run f.maxFails scope request schedule).result = .ok reply →
      f.Vouched scope request (f.crew.run f.maxFails scope request schedule) reply) ∧
    (∀ done reply, f.forward start scope request = some done → done.result = .ok reply →
      ∃ schedule, (f.crew.run f.maxFails scope request schedule).IsDone ∧
        (f.crew.run f.maxFails scope request schedule).resolvers = done.forwarder.resolvers ∧
        f.Vouched scope request (f.crew.run f.maxFails scope request schedule) reply) ∧
    ∀ (R : ρ → σ → Prop), AlikeButStrays request R → ∀ others, List.Forall₂ R f.resolvers others →
      (∀ schedule,
        (((f.withResolvers others).crew.run f.maxFails scope request schedule).IsDone ↔
          (f.crew.run f.maxFails scope request schedule).IsDone) ∧
        ((f.withResolvers others).crew.run f.maxFails scope request schedule).result =
          (f.crew.run f.maxFails scope request schedule).result) ∧
      ((f.withResolvers others).forward start scope request).map
          (fun done => (done.result, done.finished)) =
        (f.forward start scope request).map fun done => (done.result, done.finished) := by
  refine ⟨fun schedule reply h => Crew.vouched_of_result h, fun done reply h hreply => ?_,
    fun R alike others h => ⟨fun schedule => ?_, Forwarder.forward_alike alike h start scope⟩⟩
  · obtain ⟨schedule, -, hdone, hresult, hresolvers⟩ := Forwarder.exists_schedule h
    exact ⟨schedule, hdone, hresolvers, Crew.vouched_of_result (hresult.trans hreply)⟩
  · have hcrew : Crew.Alike request R (f.crew.run f.maxFails scope request schedule)
        ((f.withResolvers others).crew.run f.maxFails scope request schedule) :=
      alike.crewRun schedule (alike.crew h)
    refine ⟨hcrew.isDone_iff.symm, ?_⟩
    rw [Crew.result, Crew.result, Crew.outcomes, Crew.outcomes, hcrew.joined]

/-! ### Swapping replies -/

instance (request : Request) (reply : Message) : Decidable (request.IsStray reply) :=
  inferInstanceAs (Decidable (_ ∧ _))

def Attempt.swapped (request : Request) (swap : Message → Message) : Attempt → Attempt
  | .answered (.ok reply) => .answered (.ok (if request.IsStray reply then swap reply else reply))
  | a => a

/-- A resolver whose stray replies are swapped for others on the way. -/
structure Swapped (ρ : Type) where
  inner : ρ
  swap : Message → Message

instance : DnsFanout.Resolver (Swapped ρ) where
  address r := Resolver.address r.inner
  isDown maxFails r := Resolver.isDown maxFails r.inner
  attempt now scope request preference r :=
    let (ended, inner) := Resolver.attempt now scope request preference r.inner
    (ended.map fun (a, t) => (a.swapped request r.swap, t), { r with inner })
  recordFailure r := { r with inner := Resolver.recordFailure r.inner }
  requestProbe r := { r with inner := Resolver.requestProbe r.inner }
  start interval r := { r with inner := Resolver.start interval r.inner }
  stop now r := { r with inner := Resolver.stop now r.inner }

theorem alikeButStrays_swapped {swap : Message → Message}
    (h : ∀ reply, request.IsStray reply → request.IsStray (swap reply)) :
    AlikeButStrays request fun (r : ρ) (s : Swapped ρ) => s = ⟨r, swap⟩ where
  isDown maxFails heq := heq ▸ rfl
  recordFailure heq := heq ▸ rfl
  requestProbe heq := heq ▸ rfl
  attempt := by
    rintro r s now scope preference rfl
    refine ⟨?_, rfl⟩
    show Attempt.AlikeAt request (Resolver.attempt now scope request preference r).1
      ((Resolver.attempt now scope request preference r).1.map fun x =>
        (x.1.swapped request swap, x.2))
    cases (Resolver.attempt now scope request preference r).1 with
    | none => exact .none
    | some ended =>
      refine .some ⟨?_, rfl⟩
      obtain ⟨a, t⟩ := ended
      cases a with
      | crashed detail => exact .same _
      | answered result =>
        cases result with
        | error cause => exact .same _
        | ok reply =>
          by_cases hstray : request.IsStray reply
          · simp only [Attempt.swapped, hstray, if_true]
            exact .stray hstray (h reply hstray)
          · simp only [Attempt.swapped, hstray, if_false]
            exact .same _

namespace Rehearsal

/-- An answer to the query for the name servers of the root. -/
def rootAnswer : Message :=
  answer rootQuery 0 false [⟨Rehearsal.Handler.address Name.root 1, false⟩]

def answering : Resolver where
  address := "10.0.0.1:53"
  script := []
  fallback := ⟨.reply rootAnswer, 10⟩

def straying : Resolver where
  address := "10.0.0.2:53"
  script := []
  fallback := ⟨.reply { rootAnswer with id := 8 }, 1⟩

/-- One resolver answers the query, the other something else. -/
def spoofed : Forwarder Resolver Unit where
  resolvers := [answering, straying]
  rotation := .sequential

theorem forward_spoofed : ∃ done reply, spoofed.forward 0 {} rootQuery = some done ∧
    done.result = .ok reply := by
  have hanswering : Worker.run spoofed.maxFails {} rootQuery spoofed.fresh 0 answering =
      some ⟨.settled (.success rootAnswer), 10, _⟩ := run_of_done rfl rfl
  have hstraying : Worker.run spoofed.maxFails {} rootQuery spoofed.fresh 0 straying =
      some ⟨.settled (.malformed rootQuery.formatError), 1, _⟩ := run_of_done rfl rfl
  have hlive : spoofed.live = [(answering, 0), (straying, 1)] := rfl
  obtain ⟨runs, hruns, hmem⟩ : ∃ runs, spoofed.allRuns {} rootQuery 0 = some runs ∧
      ∃ run ∈ runs, run.1.ending = .settled (.success rootAnswer) := by
    simp only [Forwarder.allRuns, hlive, List.mapM_cons, List.mapM_nil, hanswering, hstraying]
    exact ⟨_, rfl, _, List.mem_cons_self, rfl⟩
  obtain ⟨run, hrun, hending⟩ := hmem
  have hsuccess : .success rootAnswer ∈ Forwarder.outcomes runs := by
    refine (Forwarder.outcomes_perm runs).mem_iff.mpr (List.mem_map.mpr ⟨run, hrun, ?_⟩)
    rw [hending]
    rfl
  obtain ⟨reply, hreply⟩ := merge_isOk_iff.mpr ⟨rootAnswer, hsuccess, by decide⟩
  rw [Forwarder.forward_eq_runs, hruns]
  exact ⟨_, reply, rfl, hreply⟩

/-- The reply of the other resolver may be any that does not belong to the query. -/
theorem correlated_spoofed :
    let schedule : List DnsFanout.Turn := [⟨0, 0⟩, ⟨1, 0⟩, ⟨1, 1⟩, ⟨0, 10⟩]
    let c := spoofed.crew.run 2 {} rootQuery schedule
    let others : List (Swapped Resolver) :=
      spoofed.resolvers.map fun r => ⟨r, fun _ => { rootAnswer with id := 9 }⟩
    c.result = .ok rootAnswer ∧ spoofed.Vouched {} rootQuery c rootAnswer ∧
      ((spoofed.withResolvers others).crew.run 2 {} rootQuery schedule).result = .ok rootAnswer ∧
      ∃ done reply schedule, spoofed.forward 0 {} rootQuery = some done ∧ done.result = .ok reply ∧
        spoofed.Vouched {} rootQuery (spoofed.crew.run 2 {} rootQuery schedule) reply := by
  intro schedule c others
  have hresult : c.result = .ok rootAnswer := rfl
  have hswap : ∀ reply, rootQuery.IsStray reply →
      rootQuery.IsStray { rootAnswer with id := 9 } := fun _ _ => ⟨by decide, rfl⟩
  have hothers : List.Forall₂ (fun r s => s = ⟨r, fun _ => { rootAnswer with id := 9 }⟩)
      spoofed.resolvers others := .cons rfl (.cons rfl .nil)
  obtain ⟨done, reply, hdone, hreply⟩ := forward_spoofed
  obtain ⟨hvouched, hforward, hstray⟩ :=
    only_correlated_data (σ := Swapped Resolver) rootQuery spoofed {} 0
  obtain ⟨last, -, -, hlast⟩ := hforward done reply hdone hreply
  obtain ⟨hsame, -⟩ := hstray _ (alikeButStrays_swapped hswap) others hothers
  exact ⟨hresult, hvouched schedule _ hresult, (hsame schedule).2.trans hresult, done, reply, last,
    hdone, hreply, hlast⟩

end Rehearsal

end DnsFanout
