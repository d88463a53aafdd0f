import DnsFanout.Proofs.Crew.Dispatch

/-! Replies that do not belong to a query are all alike: a worker, and with it the
forwarder, ends the same whichever of them its resolver sends. -/

namespace DnsFanout

open Worker

/-- The reply does not belong to the query, and it is not one to be asked for again. -/
def Request.IsStray (request : Request) (reply : Message) : Prop :=
  request.matchesReply reply = false ∧ reply.truncated = false

/-- Two ends of an attempt that are told apart by a stray reply at most. -/
inductive Attempt.Alike (request : Request) : Attempt → Attempt → Prop
  | same (a : Attempt) : Alike request a a
  | stray {reply other : Message} (h : request.IsStray reply) (h' : request.IsStray other) :
    Alike request (.answered (.ok reply)) (.answered (.ok other))

/-- Alike at the same instant, or both never. -/
abbrev Attempt.AlikeAt (request : Request) :
    Option (Attempt × Instant) → Option (Attempt × Instant) → Prop :=
  Option.Rel fun x y => Attempt.Alike request x.1 y.1 ∧ x.2 = y.2

variable {ρ σ η : Type} [DnsFanout.Resolver ρ] [DnsFanout.Resolver σ] {maxFails : UInt32}
  {scope : Scope} {request : Request}

/-- Resolvers that are told apart by the stray replies they send, and by nothing else. -/
structure AlikeButStrays (request : Request) (R : ρ → σ → Prop) : Prop where
  isDown : ∀ {r : ρ} {s : σ} (maxFails : UInt32), R r s →
    Resolver.isDown maxFails r = Resolver.isDown maxFails s
  attempt : ∀ {r : ρ} {s : σ} (now : Instant) (scope : Scope) (preference : Preference), R r s →
    Attempt.AlikeAt request (Resolver.attempt now scope request preference r).1
        (Resolver.attempt now scope request preference s).1 ∧
      R (Resolver.attempt now scope request preference r).2
        (Resolver.attempt now scope request preference s).2
  recordFailure : ∀ {r : ρ} {s : σ}, R r s → R (Resolver.recordFailure r) (Resolver.recordFailure s)
  requestProbe : ∀ {r : ρ} {s : σ}, R r s → R (Resolver.requestProbe r) (Resolver.requestProbe s)

theorem Attempt.AlikeAt.refl (work : Option (Attempt × Instant)) :
    Attempt.AlikeAt request work work := by
  cases work with
  | none => exact .none
  | some x => exact .some ⟨.same x.1, rfl⟩

theorem Attempt.AlikeAt.of_crashed {detail : String} {t : Instant}
    {work : Option (Attempt × Instant)}
    (h : Attempt.AlikeAt request (some (.crashed detail, t)) work) :
    work = some (.crashed detail, t) := by
  rcases h with @⟨-, ⟨b, u⟩, hab, rfl⟩
  cases hab
  rfl

theorem Attempt.AlikeAt.of_answered {result : Except Failure Message} {t : Instant}
    {work : Option (Attempt × Instant)}
    (h : Attempt.AlikeAt request (some (.answered result, t)) work) :
    ∃ other, work = some (.answered other, t) ∧
      Attempt.Alike request (.answered result) (.answered other) := by
  rcases h with @⟨-, ⟨b, u⟩, hab, rfl⟩
  cases hab with
  | same => exact ⟨result, rfl, .same _⟩
  | stray h h' => exact ⟨_, rfl, .stray h h'⟩

/-- Every stray reply ends a worker in the same way. -/
theorem Worker.observe_stray {w : Worker} {cancelled expired : Bool} {reply : Message}
    (h : request.IsStray reply) :
    w.observe request maxFails cancelled expired (.ok reply) =
      .done false (.malformed request.formatError) := by
  simp [observe, settle, h.1, h.2]

theorem Worker.observe_alike {w : Worker} {cancelled expired : Bool}
    {result other : Except Failure Message}
    (h : Attempt.Alike request (.answered result) (.answered other)) :
    w.observe request maxFails cancelled expired result =
      w.observe request maxFails cancelled expired other := by
  cases h with
  | same => rfl
  | stray h h' => rw [observe_stray h, observe_stray h']

namespace AlikeButStrays

variable {R : ρ → σ → Prop} (alike : AlikeButStrays request R)

include alike

theorem charge {r : ρ} {s : σ} (h : R r s) :
    R (Worker.charge maxFails r) (Worker.charge maxFails s) := by
  unfold Worker.charge
  dsimp only
  split
  · exact alike.recordFailure h
  · exact alike.requestProbe (alike.recordFailure h)

omit [DnsFanout.Resolver ρ] [DnsFanout.Resolver σ] alike in
theorem race {work other : Option (Attempt × Instant)} (now : Instant)
    (h : Attempt.AlikeAt request work other) :
    Attempt.AlikeAt request ((scope.race now work).map ofRace)
      ((scope.race now other).map ofRace) := by
  cases h with
  | none => exact .refl _
  | @some x y h =>
    obtain ⟨a, t⟩ := x
    obtain ⟨b, u⟩ := y
    obtain ⟨hab, rfl⟩ := h
    unfold Scope.race
    cases hv : scope.verdict? now with
    | some cause => exact .refl _
    | none =>
      cases hs : scope.stop? with
      | none => exact .some ⟨hab, rfl⟩
      | some stop =>
        by_cases ht : t < stop
        · simp only [ht, if_true]
          exact .some ⟨hab, rfl⟩
        · simp only [ht, if_false]
          exact .refl _

theorem attempted (scope : Scope) (w : Worker) (now : Instant) {r : ρ} {s : σ} (h : R r s) :
    Attempt.AlikeAt request (w.attempt scope request now r).1 (w.attempt scope request now s).1 ∧
      R (w.attempt scope request now r).2 (w.attempt scope request now s).2 := by
  obtain ⟨hwork, hnext⟩ := alike.attempt now scope w.preference h
  rw [attempt_eq, attempt_eq]
  split
  · exact ⟨.refl _, h⟩
  · exact ⟨race now hwork, hnext⟩

/-- The same ending at the same instant; the resolvers stay alike. -/
structure Runs (R : ρ → σ → Prop) (x : Run ρ) (y : Run σ) : Prop where
  ending : x.ending = y.ending
  finished : x.finished = y.finished
  resolver : R x.resolver y.resolver

variable (maxFails scope) in
theorem run (w : Worker) (now : Instant) {r : ρ} {s : σ} (h : R r s) :
    Option.Rel (Runs R) (w.run maxFails scope request now r)
      (w.run maxFails scope request now s) := by
  fun_induction Worker.run maxFails scope request w now r generalizing s with
  | case1 w now r r' ha =>
    rcases hs : w.attempt scope request now s with ⟨work, s'⟩
    have hend := (alike.attempted scope w now h).1
    rw [ha, hs] at hend
    cases hend
    rw [Worker.run, hs]
    exact .none
  | case2 w now r detail t r' ha =>
    rcases hs : w.attempt scope request now s with ⟨work, s'⟩
    obtain ⟨hend, hnext⟩ := alike.attempted scope w now h
    rw [ha, hs] at hend hnext
    obtain rfl := hend.of_crashed
    rw [run_of_crashed hs]
    exact .some ⟨rfl, rfl, hnext⟩
  | case3 w now r result t r' ha w' ho ih =>
    rcases hs : w.attempt scope request now s with ⟨work, s'⟩
    obtain ⟨hend, hnext⟩ := alike.attempted scope w now h
    rw [ha, hs] at hend hnext
    obtain ⟨other, rfl, hother⟩ := hend.of_answered
    rw [observe_alike hother] at ho
    rw [run_of_again hs ho]
    exact ih hnext
  | case4 w now r result t r' ha w' ho ih =>
    rcases hs : w.attempt scope request now s with ⟨work, s'⟩
    obtain ⟨hend, hnext⟩ := alike.attempted scope w now h
    rw [ha, hs] at hend hnext
    obtain ⟨other, rfl, hother⟩ := hend.of_answered
    rw [observe_alike hother] at ho
    rw [run_of_charged hs ho]
    exact ih (alike.charge hnext)
  | case5 w now r result t r' ha charged outcome ho =>
    rcases hs : w.attempt scope request now s with ⟨work, s'⟩
    obtain ⟨hend, hnext⟩ := alike.attempted scope w now h
    rw [ha, hs] at hend hnext
    obtain ⟨other, rfl, hother⟩ := hend.of_answered
    rw [observe_alike hother] at ho
    rw [run_of_done hs ho]
    cases charged with
    | true => exact .some ⟨rfl, rfl, alike.charge hnext⟩
    | false => exact .some ⟨rfl, rfl, hnext⟩

end AlikeButStrays

/-! ### The forwarder -/

theorem mapM_rel {α β γ : Type} {S : β → γ → Prop} {g : α → Option β} {h : α → Option γ}
    {xs : List α} (hrel : ∀ x ∈ xs, Option.Rel S (g x) (h x)) :
    Option.Rel (List.Forall₂ S) (xs.mapM g) (xs.mapM h) := by
  induction xs with
  | nil => exact .some .nil
  | cons x xs ih =>
    have hx := hrel x List.mem_cons_self
    have hxs := ih fun y hy => hrel y (List.mem_cons_of_mem _ hy)
    rw [List.mapM_cons, List.mapM_cons]
    generalize g x = y, h x = z at hx
    generalize xs.mapM g = ys, xs.mapM h = zs at hxs
    cases hx with
    | none => exact .none
    | some hfirst =>
      cases hxs with
      | none => exact .none
      | some hrest => exact .some (.cons hfirst hrest)

namespace Forwarder

def withResolvers (f : Forwarder ρ η) (others : List σ) : Forwarder σ η :=
  { f with resolvers := others }

/-- What decides the order and the content of the outcomes. -/
def keyOf (run : Run ρ × Nat) : Ending × Instant × Nat := (run.1.ending, run.1.finished, run.2)

omit [DnsFanout.Resolver ρ] [DnsFanout.Resolver σ] in
theorem outcomes_eq_of_keys {runs : List (Run ρ × Nat)} {others : List (Run σ × Nat)}
    (h : runs.map keyOf = others.map keyOf) : outcomes runs = outcomes others := by
  have hkeys {τ : Type} (runs : List (Run τ × Nat)) : outcomes runs =
      ((runs.map keyOf).mergeSort fun a b => a.2.1 ≤ b.2.1).map
        fun key => key.1.outcome (key.2.2 + 1) := by
    have hsort : (runs.mergeSort fun a b => a.1.finished ≤ b.1.finished).map keyOf =
        (runs.map keyOf).mergeSort fun a b => a.2.1 ≤ b.2.1 :=
      List.map_mergeSort fun _ _ _ _ => rfl
    rw [← hsort, List.map_map]
    rfl
  rw [hkeys, hkeys, h]

omit [DnsFanout.Resolver ρ] [DnsFanout.Resolver σ] in
theorem finished_eq_of_keys {runs : List (Run ρ × Nat)} {others : List (Run σ × Nat)}
    (h : runs.map keyOf = others.map keyOf) (now : Instant) :
    runs.foldl (fun t run => max t run.1.finished) now =
      others.foldl (fun t run => max t run.1.finished) now := by
  have hkeys {τ : Type} (runs : List (Run τ × Nat)) :
      runs.foldl (fun t run => max t run.1.finished) now =
        (runs.map keyOf).foldl (fun t key => max t key.2.1) now := by
    rw [List.foldl_map]
    rfl
  rw [hkeys, hkeys, h]

variable {R : ρ → σ → Prop} {f : Forwarder ρ η} {others : List σ}

/-- The rotation arranges both lists of resolvers in the same way. -/
theorem exists_live_alike (alike : AlikeButStrays request R)
    (h : List.Forall₂ R f.resolvers others) :
    ∃ pairs : List ((ρ × σ) × Nat), f.live = pairs.map (Prod.map Prod.fst id) ∧
      (f.withResolvers others).live = pairs.map (Prod.map Prod.snd id) ∧
      ∀ pair ∈ pairs, R pair.1.1 pair.1.2 := by
  -- the rotation never looks at what it arranges, so the pairs can be arranged instead
  let zipped := f.resolvers.zip others
  have hfst : zipped.map Prod.fst = f.resolvers := List.map_fst_zip (Nat.le_of_eq h.length_eq)
  have hsnd : zipped.map Prod.snd = others := List.map_snd_zip (Nat.le_of_eq h.length_eq.symm)
  let order := (f.rotation.arrange zipped.zipIdx).1
  have hR : ∀ pair ∈ order, R pair.1.1 pair.1.2 := by
    intro pair hpair
    have hmem := (f.rotation.arrange_perm zipped.zipIdx).mem_iff.mp hpair
    exact List.forall₂_zip h (List.fst_mem_of_mem_zipIdx hmem)
  refine ⟨order.filter fun pair => !Resolver.isDown f.maxFails pair.1.1, ?_, ?_, fun pair hpair =>
    hR pair (List.mem_of_mem_filter hpair)⟩
  · have harrange : f.arrange.1 = order.map (Prod.map Prod.fst id) := by
      rw [← Rotation.arrange_map, ← List.zipIdx_map, hfst]
      rfl
    rw [live, harrange, List.filter_map]
    rfl
  · have harrange : (f.withResolvers others).arrange.1 = order.map (Prod.map Prod.snd id) := by
      rw [← Rotation.arrange_map, ← List.zipIdx_map, hsnd]
      rfl
    rw [live, harrange, List.filter_map]
    congr 1
    refine List.filter_congr fun pair hpair => ?_
    exact congrArg Bool.not (alike.isDown f.maxFails (hR pair hpair)).symm

/-- What a query comes to, and when, is the same whichever stray replies are sent. -/
theorem forward_alike (alike : AlikeButStrays request R)
    (h : List.Forall₂ R f.resolvers others) (start : Instant) (scope : Scope) :
    ((f.withResolvers others).forward start scope request).map
        (fun done => (done.result, done.finished)) =
      (f.forward start scope request).map fun done => (done.result, done.finished) := by
  obtain ⟨pairs, hlive, hothers, hR⟩ := exists_live_alike alike h
  have hruns : Option.Rel
      (List.Forall₂ fun (x : Run ρ × Nat) (y : Run σ × Nat) =>
        AlikeButStrays.Runs R x.1 y.1 ∧ x.2 = y.2)
      (f.allRuns scope request start) ((f.withResolvers others).allRuns scope request start) := by
    rw [allRuns, allRuns, hlive, hothers, List.mapM_map, List.mapM_map]
    refine mapM_rel fun pair hpair => ?_
    have hrun := alike.run f.maxFails scope f.fresh start (hR pair hpair)
    show Option.Rel _
      ((Worker.run f.maxFails scope request f.fresh start pair.1.1).map (·, pair.2))
      ((Worker.run f.maxFails scope request f.fresh start pair.1.2).map (·, pair.2))
    generalize Worker.run f.maxFails scope request f.fresh start pair.1.1 = y,
      Worker.run f.maxFails scope request f.fresh start pair.1.2 = z at hrun
    cases hrun with
    | none => exact .none
    | some hends => exact .some ⟨hends, rfl⟩
  have hkeys {runs : List (Run ρ × Nat)} {others : List (Run σ × Nat)}
      (h : List.Forall₂ (fun x y => AlikeButStrays.Runs R x.1 y.1 ∧ x.2 = y.2) runs others) :
      others.map keyOf = runs.map keyOf := by
    refine Eq.symm (List.forall₂_eq_eq_eq ▸ ?_)
    rw [List.forall₂_map_left_iff, List.forall₂_map_right_iff]
    refine h.imp fun x y hxy => ?_
    simp [keyOf, hxy.1.ending, hxy.1.finished, hxy.2]
  rw [forward_eq_runs, forward_eq_runs]
  generalize f.allRuns scope request start = runs,
    (f.withResolvers others).allRuns scope request start = runsOthers at hruns
  cases hruns with
  | none => rfl
  | some halike =>
    simp only [Option.map_some, outcomes_eq_of_keys (hkeys halike),
      finished_eq_of_keys (hkeys halike)]

end Forwarder

end DnsFanout
