import DnsFanout.Proofs.Crew.Dispatch

/-! The schedule of a query: the workers take all their turns one after the other, and
those that end first come first. What the forwarder makes of the query is what its crew
comes to under this schedule. -/

namespace DnsFanout

open Worker

variable {ρ η : Type} [Resolver ρ] {maxFails : UInt32} {scope : Scope} {request : Request}

namespace Worker.Desk

theorem turn_of_ended {d : Desk ρ} (now : Instant) (h : d.stage.ending?.isSome) :
    d.turn maxFails scope request now = d := by
  obtain ⟨stage, r, deeds⟩ := d
  cases stage with
  | ended ending => rfl
  | ready | waiting | charging | asking | judging => cases h

theorem turns_of_ended {d : Desk ρ} (nows : List Instant) (h : d.stage.ending?.isSome) :
    d.turns maxFails scope request nows = d := by
  induction nows with
  | nil => rfl
  | cons now nows ih => rw [turns, List.foldl_cons, turn_of_ended now h, ← turns, ih]

end Worker.Desk

namespace Crew

/-- The turns of one worker in a row. -/
def solo (k : Nat) (nows : List Instant) : List Turn := nows.map (⟨k, ·⟩)

theorem instants_solo (k : Nat) (nows : List Instant) : instants k (solo k nows) = nows := by
  induction nows with
  | nil => rfl
  | cons now nows ih => simpa [instants, solo] using ih

theorem instants_solo_other {j k : Nat} (h : j ≠ k) (nows : List Instant) :
    instants k (solo j nows) = [] := by
  simp [instants, solo, h]

theorem run_append (c : Crew ρ) (schedule more : List Turn) :
    c.run maxFails scope request (schedule ++ more) =
      (c.run maxFails scope request schedule).run maxFails scope request more :=
  List.foldl_append

theorem newly_self (k : Nat) (stage : Stage) : newly k stage stage = [] := by
  cases h : stage.ending? <;> simp [newly, h]

theorem newly_append {k : Nat} {first second third : Stage}
    (hfirst : first.ending?.isSome → second = first)
    (hsecond : second.ending?.isSome → third = second) :
    newly k first second ++ newly k second third = newly k first third := by
  cases hs : second.ending? with
  | some ending => rw [hsecond (by simp [hs]), newly_self, List.append_nil]
  | none =>
    cases hf : first.ending? with
    | none => simp [newly, hs, hf]
    | some ending =>
      rw [hfirst (by simp [hf]), hf] at hs
      cases hs

variable (maxFails scope request) in
/-- A worker that takes turns by itself is joined once it has ended, and its resolver is
the only one to change. -/
theorem run_solo {c : Crew ρ} {k : Nat} {d : Desk ρ} (nows : List Instant)
    (hd : c.desk? k = some d) :
    (c.run maxFails scope request (solo k nows)).joined =
      c.joined ++ newly k d.stage (d.turns maxFails scope request nows).stage ∧
    (c.run maxFails scope request (solo k nows)).resolvers =
      c.resolvers.set k (d.turns maxFails scope request nows).resolver := by
  induction nows generalizing c d with
  | nil =>
    obtain ⟨p, -, -, -, -, hr⟩ := exists_post_of_desk? hd
    obtain ⟨hlt, hget⟩ := List.getElem?_eq_some_iff.mp hr
    refine ⟨by simp [run, solo, Desk.turns, newly_self], ?_⟩
    simp [run, solo, Desk.turns, ← hget]
  | cons now nows ih =>
    let next := d.turn maxFails scope request now
    have hnext : (c.put k next (newly k d.stage next.stage)).desk? k = some next :=
      desk?_put_self hd
    obtain ⟨hj, hr⟩ := ih hnext
    have hrun : c.run maxFails scope request (solo k (now :: nows)) =
        (c.put k next (newly k d.stage next.stage)).run maxFails scope request (solo k nows) := by
      rw [solo, List.map_cons, run, List.foldl_cons, turn_of_desk? hd]
      rfl
    have hturns : d.turns maxFails scope request (now :: nows) =
        next.turns maxFails scope request nows := rfl
    rw [hrun, hturns, hj, hr]
    constructor
    · have hfirst : d.stage.ending?.isSome → next.stage = d.stage :=
        fun h => congrArg Desk.stage (Desk.turn_of_ended now h)
      have hstay : next.stage.ending?.isSome →
          (next.turns maxFails scope request nows).stage = next.stage :=
        fun h => congrArg Desk.stage (Desk.turns_of_ended nows h)
      simp only [put, List.append_assoc, newly_append hfirst hstay]
    · simp [put]

variable (maxFails scope request) in
/-- Workers that end by themselves end one after the other, in any order. -/
theorem exists_serial (logs : List (Log ρ × Nat)) (hnodup : (logs.map Prod.snd).Nodup)
    (isOpen : Instant → Prop) (c : Crew ρ)
    (h : ∀ x ∈ logs, ∃ d nows, c.desk? x.2 = some d ∧ d.stage.ending? = none ∧
      (∀ now ∈ nows, isOpen now) ∧
      ∃ deeds, d.turns maxFails scope request nows = ⟨.ended x.1.ending, x.1.resolver, deeds⟩) :
    ∃ schedule, (∀ t ∈ schedule, isOpen t.now) ∧
      (∀ k, k ∉ logs.map Prod.snd →
        (c.run maxFails scope request schedule).desk? k = c.desk? k) ∧
      (∀ x ∈ logs, ∃ d, (c.run maxFails scope request schedule).desk? x.2 = some d ∧
        d.stage.ending?.isSome) ∧
      (c.run maxFails scope request schedule).joined =
        c.joined ++ logs.map (fun x => (x.2, x.1.ending)) ∧
      (c.run maxFails scope request schedule).resolvers =
        logs.foldl (fun rs x => rs.set x.2 x.1.resolver) c.resolvers := by
  induction logs generalizing c with
  | nil => exact ⟨[], by simp, by simp [run], by simp, by simp [run], by simp [run]⟩
  | cons x logs ih =>
    obtain ⟨hx, hnodup⟩ := List.nodup_cons.mp hnodup
    obtain ⟨d, nows, hd, hstart, hnows, deeds, hend⟩ := h x (by simp)
    let first := c.run maxFails scope request (solo x.2 nows)
    have hother (k : Nat) (hk : k ≠ x.2) : first.desk? k = c.desk? k := by
      rw [desk?_run, instants_solo_other (Ne.symm hk)]
      exact Option.map_id'
    have hself : first.desk? x.2 = some ⟨.ended x.1.ending, x.1.resolver, deeds⟩ := by
      rw [desk?_run, instants_solo, hd, ← hend]
      rfl
    obtain ⟨hjoined, hresolvers⟩ := run_solo maxFails scope request nows hd
    have hfirst : newly x.2 d.stage (.ended x.1.ending) = [(x.2, x.1.ending)] := by
      simp [newly, hstart]
    rw [hend, hfirst] at hjoined
    rw [hend] at hresolvers
    -- the workers that follow find their desks as they were
    have hrest : ∀ y ∈ logs, ∃ d nows, first.desk? y.2 = some d ∧ d.stage.ending? = none ∧
        (∀ now ∈ nows, isOpen now) ∧ ∃ deeds,
          d.turns maxFails scope request nows = ⟨.ended y.1.ending, y.1.resolver, deeds⟩ := by
      intro y hy
      have hne : y.2 ≠ x.2 := fun he => hx (he ▸ List.mem_map_of_mem hy)
      rw [hother y.2 hne]
      exact h y (List.mem_cons_of_mem _ hy)
    obtain ⟨schedule, hopen, hkeep, hdone, hj, hr⟩ := ih hnodup first hrest
    refine ⟨solo x.2 nows ++ schedule, ?_, ?_, ?_, ?_, ?_⟩
    · intro t ht
      rcases List.mem_append.mp ht with ht | ht
      · obtain ⟨now, hnow, rfl⟩ := List.mem_map.mp ht
        exact hnows now hnow
      · exact hopen t ht
    · intro k hk
      simp only [List.map_cons, List.mem_cons, not_or] at hk
      rw [run_append, hkeep k hk.2, hother k hk.1]
    · intro y hy
      rw [run_append]
      rcases List.mem_cons.mp hy with rfl | hy
      · exact ⟨_, (hkeep y.2 hx).trans hself, rfl⟩
      · exact hdone y hy
    · rw [run_append, hj, hjoined]
      simp
    · rw [run_append, hr, hresolvers]
      rfl

end Crew

namespace Forwarder

omit [Resolver ρ] in
theorem restore_runs (resolvers : List ρ) (logs : List (Log ρ × Nat)) :
    restore resolvers (runs logs) =
      logs.foldl (fun rs x => rs.set x.2 x.1.resolver) resolvers := by
  rw [restore, runs, List.foldl_map]

omit [Resolver ρ] in
theorem foldl_set_perm {logs sorted : List (Log ρ × Nat)} (hperm : sorted.Perm logs)
    (hnodup : (logs.map Prod.snd).Nodup) (resolvers : List ρ) :
    sorted.foldl (fun rs x => rs.set x.2 x.1.resolver) resolvers =
      logs.foldl (fun rs x => rs.set x.2 x.1.resolver) resolvers := by
  refine hperm.foldl_eq' (fun x hx y hy rs => ?_) resolvers
  by_cases hxy : x.2 = y.2
  · have heq : x = y := List.inj_on_of_nodup_map hnodup (hperm.mem_iff.mp hx)
      (hperm.mem_iff.mp hy) hxy
    rw [heq]
  · exact List.set_comm _ _ hxy

omit [Resolver ρ] in
theorem finished_le_iff {runs : List (Run ρ × Nat)} {now t : Instant} :
    runs.foldl (fun t run => max t run.1.finished) now ≤ t ↔
      now ≤ t ∧ ∀ x ∈ runs, x.1.finished ≤ t := by
  induction runs generalizing now with
  | nil => simp
  | cons x runs ih =>
    rw [List.foldl_cons, ih]
    simp only [Nat.max_le, List.mem_cons, forall_eq_or_imp, and_assoc]

/-- What a forwarder makes of a query is what the crew comes to under some schedule; and if
the scope is still open at the end it is open at every turn. -/
theorem exists_schedule {f : Forwarder ρ η} {now : Instant} {scope : Scope} {request : Request}
    {done : FanOut ρ η} (h : f.forward now scope request = some done) :
    ∃ schedule,
      (scope.verdict? done.finished = none → ∀ t ∈ schedule, scope.verdict? t.now = none) ∧
      (f.crew.run f.maxFails scope request schedule).IsDone ∧
      (f.crew.run f.maxFails scope request schedule).result = done.result ∧
      (f.crew.run f.maxFails scope request schedule).resolvers = done.forwarder.resolvers := by
  rw [forward_eq] at h
  obtain ⟨logs, hlogs, rfl⟩ := Option.map_eq_some_iff.mp h
  have hplaces := places_logs hlogs
  have hnodup : (logs.map Prod.snd).Nodup := hplaces ▸ f.live_nodup
  let sorted := logs.mergeSort fun x y => x.1.finished ≤ y.1.finished
  have hperm : sorted.Perm logs := List.mergeSort_perm _ _
  let finished := (runs logs).foldl (fun t run => max t run.1.finished) now
  obtain ⟨schedule, hopen, hother, hdone, hjoined, hresolvers⟩ :=
    Crew.exists_serial f.maxFails scope request sorted
      ((hperm.map Prod.snd).nodup_iff.mpr hnodup)
      (fun t => scope.verdict? finished = none → scope.verdict? t = none) f.crew (by
        intro x hx
        have hmem := hperm.mem_iff.mp hx
        obtain ⟨r, hlive, hlog⟩ := live_of_mem_logs hlogs hmem
        obtain ⟨nows, hnows, hturns⟩ := exists_turns_of_logged hlog
        refine ⟨_, nows, desk?_crew hlive, rfl, fun u hu hfin => hnows ?_ u hu, _, hturns []⟩
        exact Scope.verdict?_mono hfin ((finished_le_iff.mp (Nat.le_refl finished)).2
          (x.1.toRun, x.2) (List.mem_map_of_mem hmem)))
  refine ⟨schedule, fun hfin t ht => hopen t ht hfin, ?_, ?_, ?_⟩
  · rw [Crew.isDone_iff]
    intro k d hd
    by_cases hk : k ∈ sorted.map Prod.snd
    · obtain ⟨x, hx, rfl⟩ := List.mem_map.mp hk
      obtain ⟨d', hd', hended⟩ := hdone x hx
      rw [hd] at hd'
      cases hd'
      exact hended
    · rw [hother k hk] at hd
      have hnot : k ∉ f.crew.posts.map Post.place := by
        rw [places_crew, ← hplaces]
        exact fun hmem => hk ((hperm.map Prod.snd).mem_iff.mpr hmem)
      rw [Crew.desk?_eq_none hnot] at hd
      cases hd
  · have hsorted : sorted.map (fun x => (x.1.toRun, x.2)) =
        (runs logs).mergeSort fun a b => a.1.finished ≤ b.1.finished :=
      List.map_mergeSort (fun _ _ _ _ => rfl)
    have houtcomes : outcomes (runs logs) =
        sorted.map fun x => x.1.ending.outcome (x.2 + 1) := by
      rw [outcomes, ← hsorted, List.map_map]
      rfl
    rw [Crew.result, Crew.outcomes, hjoined, houtcomes, List.map_append, List.map_map]
    rfl
  · rw [hresolvers, restore_runs]
    exact foldl_set_perm hperm hnodup _

end Forwarder

end DnsFanout
