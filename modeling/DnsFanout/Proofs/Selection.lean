import DnsFanout.Proofs.Interleaving

/-! Whom a query is sent to. No rotation loses a resolver or names one twice, so a query has one
worker for every resolver that is not down; and one that goes round puts every resolver first in
its turn. -/

namespace DnsFanout

namespace Forwarder

variable {ρ η : Type}

/-- The places of the resolvers in the order of the next query. -/
def places (f : Forwarder ρ η) : List Nat := f.arrange.1.map Prod.snd

/-- One forwarder is what another is after a query: the same places, and the rotation one call
further. What is held against the resolvers may have changed. -/
structure Follows (before after : Forwarder ρ η) : Prop where
  rotation : after.rotation = before.arrange.2.rotation
  length : after.resolvers.length = before.resolvers.length

theorem range_resolvers (f : Forwarder ρ η) :
    List.range f.resolvers.length = f.resolvers.zipIdx.map Prod.snd := by
  rw [List.zipIdx_map_snd, List.range_eq_range']

/-- The order does not depend on the state of the resolvers. -/
theorem places_eq (f : Forwarder ρ η) :
    f.places = (f.rotation.arrange (List.range f.resolvers.length)).1 := by
  rw [range_resolvers, Rotation.arrange_map]
  rfl

theorem rotation_arrange (f : Forwarder ρ η) :
    f.arrange.2.rotation = (f.rotation.arrange (List.range f.resolvers.length)).2 := by
  rw [range_resolvers, Rotation.arrange_map_snd]
  rfl

/-- Queries in a row are calls in a row for one list of places. -/
theorem places_of_chain {f : Forwarder ρ η} {fs : List (Forwarder ρ η)}
    (h : (f :: fs).IsChain Follows) :
    (f :: fs).map places =
      f.rotation.orders (List.range f.resolvers.length) (f :: fs).length := by
  induction fs generalizing f with
  | nil =>
    rw [List.map_singleton, places_eq]
    rfl
  | cons g fs ih =>
    obtain ⟨hstep, hrest⟩ := List.isChain_cons_cons.mp h
    have hlater := ih hrest
    rw [hstep.rotation, hstep.length, rotation_arrange] at hlater
    rw [List.map_cons, hlater, places_eq]
    rfl

theorem length_restore (runs : List (Worker.Run ρ × Nat)) (resolvers : List ρ) :
    (restore resolvers runs).length = resolvers.length := by
  induction runs generalizing resolvers with
  | nil => rfl
  | cons run runs ih => exact (ih (resolvers.set run.2 run.1.resolver)).trans List.length_set

variable [Resolver ρ]

theorem follows_of_forward {f : Forwarder ρ η} {now : Instant} {scope : Scope} {request : Request}
    {done : FanOut ρ η} (h : f.forward now scope request = some done) :
    f.Follows done.forwarder := by
  rw [forward_eq_runs] at h
  obtain ⟨runs, -, rfl⟩ := Option.map_eq_some_iff.mp h
  exact ⟨rfl, length_restore runs f.resolvers⟩

/-- One worker for every resolver that is not down, and no other: in the crew that a query is
given, and in what is made of it when all have ended. -/
structure AsksEachOnce (f : Forwarder ρ η) : Prop where
  nodup : (f.crew.posts.map Post.place).Nodup
  place_iff : ∀ k, k ∈ f.crew.posts.map Post.place ↔
    ∃ r, f.resolvers[k]? = some r ∧ Resolver.isDown f.maxFails r = false
  forward : ∀ now scope request done, f.forward now scope request = some done →
    ∃ logs, f.Alone scope request now logs ∧ done.result = merge (outcomes (runs logs)) ∧
      f.Follows done.forwarder

theorem asksEachOnce (f : Forwarder ρ η) : f.AsksEachOnce where
  nodup := f.crew.places_nodup
  place_iff k := by rw [places_crew, mem_live_places]
  forward now scope request done h := by
    have hfollows := follows_of_forward h
    rw [forward_eq] at h
    obtain ⟨logs, hlogs, rfl⟩ := Option.map_eq_some_iff.mp h
    exact ⟨logs, alone_of_logs hlogs, rfl, hfollows⟩

end Forwarder

namespace Rotation

variable {α ρ η : Type} [Resolver ρ]

/-- Whatever its state, a rotation gives a permutation of the list, and a random one may give any.
As many calls in a row as there are elements go round by one place each and put every element
first once, unless the counter wraps among them. -/
theorem selects_each_once (xs : List α) :
    (∀ rotation : Rotation, (rotation.arrange xs).1.Perm xs) ∧
    (∀ ys : List α, ys.Perm xs → ∃ draws, ((random draws).arrange xs).1 = ys) ∧
    (∀ next : UInt64, next.toNat + xs.length ≤ UInt64.size →
      ((roundRobin next).orders xs xs.length).length = xs.length ∧
      ((roundRobin next).orders xs xs.length).IsChain
        (fun before after => after = before.rotate 1) ∧
      (((roundRobin next).orders xs xs.length).map List.head?).Perm (xs.map some)) ∧
    (∀ f : Forwarder ρ η, f.AsksEachOnce) ∧
    ∀ (f : Forwarder ρ η) (fs : List (Forwarder ρ η)), (f :: fs).IsChain Forwarder.Follows →
      (f :: fs).map Forwarder.places =
        f.rotation.orders (List.range f.resolvers.length) (f :: fs).length := by
  refine ⟨fun rotation => arrange_perm rotation xs, fun ys hys => exists_shuffle hys, ?_,
    Forwarder.asksEachOnce, fun _ _ => Forwarder.places_of_chain⟩
  intro next hwrap
  refine ⟨?_, isChain_orders xs hwrap, ?_⟩
  · rw [orders_roundRobin hwrap, List.length_map, List.length_range]
  · rw [heads_orders hwrap]
    exact (List.rotate_perm xs next.toNat).map some

/-- At its wrap the counter may begin twice at one place. -/
example : (roundRobin 0xFFFFFFFFFFFFFFFF).orders [0, 1, 2] 2 = [[0, 1, 2], [0, 1, 2]] := by decide

end Rotation

namespace Rehearsal

/-- The last three calls before the wrap, and three resolvers of which the last is down. -/
theorem selects_trio :
    (0xFFFFFFFFFFFFFFFD : UInt64).toNat + [0, 1, 2].length ≤ UInt64.size ∧
    ((Rotation.roundRobin 0xFFFFFFFFFFFFFFFD).orders [0, 1, 2] 3).IsChain
      (fun before after => after = before.rotate 1) ∧
    (((Rotation.roundRobin 0xFFFFFFFFFFFFFFFD).orders [0, 1, 2] 3).map List.head?).Perm
      [some 0, some 1, some 2] ∧
    (∃ draws, ((Rotation.random draws).arrange [0, 1, 2]).1 = [2, 0, 1]) ∧
    (trio.crew.posts.map Post.place).Nodup ∧ 1 ∈ trio.crew.posts.map Post.place ∧
    2 ∉ trio.crew.posts.map Post.place := by
  obtain ⟨-, hshuffle, hround, hasks, -⟩ :=
    Rotation.selects_each_once (ρ := Resolver) (η := Unit) [0, 1, 2]
  have hwrap : (0xFFFFFFFFFFFFFFFD : UInt64).toNat + [0, 1, 2].length ≤ UInt64.size := by decide
  obtain ⟨-, hchain, hheads⟩ := hround 0xFFFFFFFFFFFFFFFD hwrap
  refine ⟨hwrap, hchain, hheads, hshuffle [2, 0, 1] (by decide), (hasks trio).nodup, ?_, ?_⟩
  · exact ((hasks trio).place_iff 1).mpr ⟨_, rfl, rfl⟩
  · intro hasked
    obtain ⟨r, hr, hdown⟩ := ((hasks trio).place_iff 2).mp hasked
    cases hr
    cases hdown

end Rehearsal

end DnsFanout
