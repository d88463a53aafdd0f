import DnsFanout.Proofs.Crew.Basic
import DnsFanout.Proofs.Merge
import Mathlib.Data.List.Forall2

/-! The crew of a query: one worker for each resolver that is not down, whatever the
rotation. What a forwarder makes of a query is what its crew makes of it when the
workers take all their turns one after the other, those that end first in front. -/

namespace DnsFanout

open Worker

theorem forall₂_of_mapM {α β : Type} {g : α → Option β} {xs : List α} {ys : List β}
    (h : xs.mapM g = some ys) : List.Forall₂ (fun x y => g x = some y) xs ys := by
  induction xs generalizing ys with
  | nil =>
    cases h
    exact .nil
  | cons x xs ih =>
    rw [List.mapM_cons] at h
    obtain ⟨y, hy, h⟩ := Option.bind_eq_some_iff.mp h
    obtain ⟨more, hmore, h⟩ := Option.bind_eq_some_iff.mp h
    cases h
    exact .cons hy (ih hmore)

theorem mapM_option_map {α β γ : Type} (g : α → Option β) (h : β → γ) (xs : List α) :
    xs.mapM (fun x => (g x).map h) = (xs.mapM g).map (List.map h) := by
  induction xs with
  | nil => rfl
  | cons x xs ih =>
    simp only [List.mapM_cons, ih]
    cases g x with
    | none => rfl
    | some y => cases xs.mapM g <;> rfl

theorem exists_mapM {α β : Type} {g : α → Option β} {xs : List α}
    (h : ∀ x ∈ xs, (g x).isSome) : ∃ ys, xs.mapM g = some ys := by
  induction xs with
  | nil => exact ⟨[], rfl⟩
  | cons x xs ih =>
    obtain ⟨y, hy⟩ := Option.isSome_iff_exists.mp (h x List.mem_cons_self)
    obtain ⟨ys, hys⟩ := ih fun z hz => h z (List.mem_cons_of_mem _ hz)
    exact ⟨y :: ys, by simp [List.mapM_cons, hy, hys]⟩

/-- A query for the name servers of the root, to try a crew with. -/
def Rehearsal.rootQuery : Request := ⟨Message.probe 7, .datagram, none⟩

variable {ρ η : Type} [Resolver ρ]

namespace Forwarder

/-- The resolvers that a query is sent to, in the order of the rotation. -/
def live (f : Forwarder ρ η) : List (ρ × Nat) :=
  f.arrange.1.filter fun place => !Resolver.isDown f.maxFails place.1

def fresh (f : Forwarder ρ η) : Worker := ⟨f.preference, 0, 0⟩

omit [Resolver ρ] in
theorem arrange_perm (f : Forwarder ρ η) : f.arrange.1.Perm f.resolvers.zipIdx :=
  Rotation.arrange_perm _ _

theorem live_perm (f : Forwarder ρ η) : f.live.Perm
    (f.resolvers.zipIdx.filter fun place => !Resolver.isDown f.maxFails place.1) :=
  f.arrange_perm.filter _

/-- The live resolvers with their places: those that are not down, each once. -/
theorem mem_live {f : Forwarder ρ η} {r : ρ} {k : Nat} :
    (r, k) ∈ f.live ↔ f.resolvers[k]? = some r ∧ Resolver.isDown f.maxFails r = false := by
  rw [f.live_perm.mem_iff, List.mem_filter, List.mem_zipIdx_iff_getElem?]
  simp

theorem live_nodup (f : Forwarder ρ η) : (f.live.map Prod.snd).Nodup := by
  have hsub := (List.filter_sublist (l := f.resolvers.zipIdx)
    (p := fun place => !Resolver.isDown f.maxFails place.1)).map Prod.snd
  have hzip : (f.resolvers.zipIdx.map Prod.snd).Nodup := by
    rw [List.zipIdx_map_snd]
    exact List.nodup_range'
  exact ((f.live_perm.map Prod.snd).nodup_iff).mpr (hzip.sublist hsub)

/-- The crew that a query is given. -/
def crew (f : Forwarder ρ η) : Crew ρ where
  resolvers := f.resolvers
  posts := f.live.map fun place => { place := place.2, stage := .ready f.fresh }
  places_nodup := by simpa [Function.comp_def] using f.live_nodup
  place_lt := by
    intro post hpost
    obtain ⟨place, hplace, rfl⟩ := List.mem_map.mp hpost
    exact (List.getElem?_eq_some_iff.mp (mem_live.mp hplace).1).1

@[simp] theorem places_crew (f : Forwarder ρ η) :
    f.crew.posts.map Post.place = f.live.map Prod.snd := by
  simp [crew, Function.comp_def]

theorem desk?_crew {f : Forwarder ρ η} {r : ρ} {k : Nat} (h : (r, k) ∈ f.live) :
    f.crew.desk? k = some ⟨.ready f.fresh, r, []⟩ := by
  have hp : (⟨k, .ready f.fresh, []⟩ : Post) ∈ f.crew.posts := List.mem_map.mpr ⟨_, h, rfl⟩
  obtain ⟨r', hr', hd⟩ := Crew.desk?_of_mem hp
  have hr : f.crew.resolvers[k]? = some r := (mem_live.mp h).1
  rw [hr] at hr'
  cases hr'
  exact hd

theorem joined_crew (f : Forwarder ρ η) : f.crew.joined.Perm f.crew.endings := by
  have hnil : f.crew.endings = [] := by
    simp [Crew.endings, crew, Worker.Stage.ending?]
  rw [hnil]
  exact .refl _

/-- The desks that a crew has at any time are those that it had at the start. -/
theorem desk?_crew_of_run {f : Forwarder ρ η} {scope : Scope} {request : Request}
    {schedule : List Turn} {k : Nat} {d : Desk ρ}
    (h : (f.crew.run f.maxFails scope request schedule).desk? k = some d) :
    ∃ r, (r, k) ∈ f.live ∧ f.crew.desk? k = some ⟨.ready f.fresh, r, []⟩ ∧
      d = (⟨.ready f.fresh, r, []⟩ : Desk ρ).turns f.maxFails scope request
        (Crew.instants k schedule) := by
  rw [Crew.desk?_run] at h
  obtain ⟨first, hfirst, rfl⟩ := Option.map_eq_some_iff.mp h
  obtain ⟨p, hp, hplace, -⟩ := Crew.exists_post_of_desk? hfirst
  have hmem := List.mem_map_of_mem (f := Post.place) hp
  rw [places_crew, hplace] at hmem
  obtain ⟨⟨r, j⟩, hlive, rfl⟩ := List.mem_map.mp hmem
  rw [desk?_crew hlive] at hfirst
  cases hfirst
  exact ⟨r, hlive, desk?_crew hlive, rfl⟩

theorem mem_outcomes_run {f : Forwarder ρ η} {scope : Scope} {request : Request}
    {schedule : List Turn} {outcome : Outcome} :
    outcome ∈ (f.crew.run f.maxFails scope request schedule).outcomes ↔
      ∃ k d ending, (f.crew.run f.maxFails scope request schedule).desk? k = some d ∧
        d.stage = .ended ending ∧ ending.outcome (k + 1) = outcome :=
  Crew.mem_outcomes (Crew.joined_run schedule f.crew f.joined_crew)

/-- The logs of all workers, each run by itself. -/
def logs (f : Forwarder ρ η) (scope : Scope) (request : Request) (now : Instant) :
    Option (List (Log ρ × Nat)) :=
  f.live.mapM fun place =>
    (logged f.maxFails scope request f.fresh now place.1).map (·, place.2)

def runs (logs : List (Log ρ × Nat)) : List (Run ρ × Nat) :=
  logs.map fun x => (x.1.toRun, x.2)

omit [Resolver ρ] in
theorem outcomes_perm (runs : List (Run ρ × Nat)) :
    (outcomes runs).Perm (runs.map fun run => run.1.ending.outcome (run.2 + 1)) :=
  (List.mergeSort_perm runs _).map _

def allRuns (f : Forwarder ρ η) (scope : Scope) (request : Request) (now : Instant) :
    Option (List (Run ρ × Nat)) :=
  f.live.mapM fun place =>
    (Worker.run f.maxFails scope request f.fresh now place.1).map (·, place.2)

theorem forward_eq_runs (f : Forwarder ρ η) (now : Instant) (scope : Scope) (request : Request) :
    f.forward now scope request = (f.allRuns scope request now).map fun runs => {
      result := merge (outcomes runs)
      finished := runs.foldl (fun t run => max t run.1.finished) now
      forwarder := { f.arrange.2 with resolvers := restore f.resolvers runs } } := by
  have hforward : f.forward now scope request =
      if f.live.isEmpty then some ⟨.error .noHealthyResolver, now, f.arrange.2⟩
      else (f.allRuns scope request now).map fun runs => {
        result := merge (outcomes runs)
        finished := runs.foldl (fun t run => max t run.1.finished) now
        forwarder := { f.arrange.2 with resolvers := restore f.resolvers runs } } := by
    rw [Option.map_eq_bind]
    rfl
  rw [hforward]
  by_cases hlive : f.live.isEmpty
  · have hnil : f.live = [] := List.isEmpty_iff.mp hlive
    simp [allRuns, hnil, outcomes, restore, merge, arrange]
  · simp [hlive]

theorem forward_lone {f : Forwarder ρ η} {now : Instant} {scope : Scope} {request : Request} {r : ρ}
    {k : Nat} {run : Run ρ} (hlive : f.live = [(r, k)])
    (hrun : Worker.run f.maxFails scope request f.fresh now r = some run) :
    f.forward now scope request = some {
      result := merge [run.ending.outcome (k + 1)]
      finished := max now run.finished
      forwarder := { f.arrange.2 with resolvers := f.resolvers.set k run.resolver } } := by
  rw [forward_eq_runs, allRuns, hlive]
  simp [hrun, outcomes, restore]

theorem forward_eq (f : Forwarder ρ η) (now : Instant) (scope : Scope) (request : Request) :
    f.forward now scope request = (f.logs scope request now).map fun logs => {
      result := merge (outcomes (runs logs))
      finished := (runs logs).foldl (fun t run => max t run.1.finished) now
      forwarder := { f.arrange.2 with resolvers := restore f.resolvers (runs logs) } } := by
  have hruns : f.allRuns scope request now = (f.logs scope request now).map runs := by
    have hmap : (runs : List (Log ρ × Nat) → List (Run ρ × Nat)) =
        List.map fun x => (x.1.toRun, x.2) := rfl
    rw [hmap, logs, allRuns, ← mapM_option_map]
    congr 1
    funext place
    rw [← map_toRun_logged]
    simp [Function.comp_def]
  rw [forward_eq_runs, hruns, Option.map_map]
  rfl

theorem exists_logs {f : Forwarder ρ η} {scope : Scope} {request : Request} {now : Instant}
    (h : ∀ r ∈ f.resolvers, (logged f.maxFails scope request f.fresh now r).isSome) :
    ∃ logs, f.logs scope request now = some logs := by
  refine exists_mapM fun place hplace => ?_
  rw [Option.isSome_map]
  exact h place.1 (List.mem_of_getElem? (mem_live.mp hplace).1)

theorem forall₂_logs {f : Forwarder ρ η} {scope : Scope} {request : Request} {now : Instant}
    {logs : List (Log ρ × Nat)} (h : f.logs scope request now = some logs) :
    List.Forall₂ (fun place x => logged f.maxFails scope request f.fresh now place.1 = some x.1 ∧
      place.2 = x.2) f.live logs := by
  refine (forall₂_of_mapM h).imp fun place x hx => ?_
  obtain ⟨log, hlog, rfl⟩ := Option.map_eq_some_iff.mp hx
  exact ⟨hlog, rfl⟩

theorem places_logs {f : Forwarder ρ η} {scope : Scope} {request : Request} {now : Instant}
    {logs : List (Log ρ × Nat)} (h : f.logs scope request now = some logs) :
    logs.map Prod.snd = f.live.map Prod.snd := by
  refine Eq.symm (List.forall₂_eq_eq_eq ▸ ?_)
  rw [List.forall₂_map_left_iff, List.forall₂_map_right_iff]
  exact (forall₂_logs h).imp fun _ _ hx => hx.2

theorem live_of_mem_logs {f : Forwarder ρ η} {scope : Scope} {request : Request} {now : Instant}
    {logs : List (Log ρ × Nat)} (h : f.logs scope request now = some logs) {x : Log ρ × Nat}
    (hx : x ∈ logs) : ∃ r, (r, x.2) ∈ f.live ∧
      logged f.maxFails scope request f.fresh now r = some x.1 := by
  obtain ⟨i, hi, rfl⟩ := List.mem_iff_getElem.mp hx
  have hall := List.forall₂_iff_get.mp (forall₂_logs h)
  have hi' : i < f.live.length := hall.1 ▸ hi
  obtain ⟨hlog, hplace⟩ := hall.2 i hi' hi
  simp only [List.get_eq_getElem] at hlog hplace
  refine ⟨f.live[i].1, ?_, hlog⟩
  rw [← hplace]
  exact List.getElem_mem hi'

/-- The logs of the workers of a query, each of them run by itself. -/
structure Alone (f : Forwarder ρ η) (scope : Scope) (request : Request) (start : Instant)
    (logs : List (Log ρ × Nat)) : Prop where
  /-- One for every resolver that is not down, and no other. -/
  nodup : (logs.map Prod.snd).Nodup
  place_iff : ∀ k, k ∈ logs.map Prod.snd ↔
    ∃ r, f.resolvers[k]? = some r ∧ Resolver.isDown f.maxFails r = false
  logged : ∀ x ∈ logs, ∃ r, f.resolvers[x.2]? = some r ∧
    logged f.maxFails scope request f.fresh start r = some x.1 ∧
    Worker.run f.maxFails scope request f.fresh start r = some x.1.toRun

variable {f : Forwarder ρ η} {scope : Scope} {request : Request} {start : Instant}
  {logs : List (Log ρ × Nat)}

theorem mem_live_places {k : Nat} : k ∈ f.live.map Prod.snd ↔
    ∃ r, f.resolvers[k]? = some r ∧ Resolver.isDown f.maxFails r = false := by
  constructor
  · intro hk
    obtain ⟨⟨r, j⟩, hr, rfl⟩ := List.mem_map.mp hk
    exact ⟨r, mem_live.mp hr⟩
  · rintro ⟨r, hr⟩
    exact List.mem_map.mpr ⟨(r, k), mem_live.mpr hr, rfl⟩

theorem alone_of_logs (h : f.logs scope request start = some logs) :
    f.Alone scope request start logs where
  nodup := places_logs h ▸ f.live_nodup
  place_iff k := by rw [places_logs h, mem_live_places]
  logged x hx := by
    obtain ⟨r, hlive, hlog⟩ := live_of_mem_logs h hx
    refine ⟨r, (mem_live.mp hlive).1, hlog, ?_⟩
    rw [← map_toRun_logged, hlog]
    rfl

theorem Alone.places_perm (h : f.Alone scope request start logs) :
    (f.crew.posts.map Post.place).Perm (logs.map Prod.snd) := by
  rw [places_crew]
  refine (List.perm_ext_iff_of_nodup f.live_nodup h.nodup).mpr fun k => ?_
  rw [h.place_iff, mem_live_places]

end Forwarder

end DnsFanout
