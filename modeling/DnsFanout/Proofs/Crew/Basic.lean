import DnsFanout.Forwarder
import DnsFanout.Proofs.Rotation
import DnsFanout.Proofs.Worker.Turn
import Mathlib.Data.List.Nodup

/-! The workers of a query side by side. A schedule says whose turn it is and when; a
worker touches its own resolver only, so that its desk sees nothing of the others. -/

namespace DnsFanout

/-- A worker of a query, at the place of its resolver. -/
structure Post where
  place : Nat
  stage : Worker.Stage
  deeds : List Worker.Deed := []

/-- The resolvers of a forwarder and the workers of one query, one to a resolver. -/
structure Crew (ρ : Type) where
  resolvers : List ρ
  posts : List Post
  /-- The places and endings of the workers that ended, the first in front. -/
  joined : List (Nat × Worker.Ending) := []
  places_nodup : (posts.map Post.place).Nodup
  place_lt : ∀ post ∈ posts, post.place < resolvers.length

/-- The worker at a place takes a turn at an instant. -/
structure Turn where
  place : Nat
  now : Instant

def Worker.Stage.ending? : Worker.Stage → Option Worker.Ending
  | .ended ending => some ending
  | _ => none

@[simp] theorem Worker.Stage.ending?_ended (ending : Worker.Ending) :
    (Worker.Stage.ended ending).ending? = some ending := rfl

namespace Crew

open Worker

variable {ρ : Type}

def post? (c : Crew ρ) (k : Nat) : Option Post := c.posts.find? (·.place = k)

/-- A worker as it sees itself. -/
def desk? (c : Crew ρ) (k : Nat) : Option (Desk ρ) :=
  (c.post? k).bind fun p => c.resolvers[k]?.map fun r => ⟨p.stage, r, p.deeds⟩

/-- What is joined when a worker goes from one stage to another. -/
def newly (k : Nat) (before after : Stage) : List (Nat × Ending) :=
  match before.ending?, after.ending? with
  | none, some ending => [(k, ending)]
  | _, _ => []

/-- A worker's desk goes back to its post and its resolver. -/
def put (c : Crew ρ) (k : Nat) (d : Desk ρ) (news : List (Nat × Ending)) : Crew ρ where
  resolvers := c.resolvers.set k d.resolver
  posts := c.posts.map fun p => if p.place = k then ⟨p.place, d.stage, d.deeds⟩ else p
  joined := c.joined ++ news
  places_nodup := by
    have hplaces (p : Post) :
        (if p.place = k then (⟨p.place, d.stage, d.deeds⟩ : Post) else p).place = p.place := by
      split <;> rfl
    simpa only [List.map_map, Function.comp_def, hplaces] using c.places_nodup
  place_lt := by
    intro post hpost
    obtain ⟨p, hp, rfl⟩ := List.mem_map.mp hpost
    rw [List.length_set]
    split
    · exact c.place_lt p hp
    · exact c.place_lt p hp

/-- The places and endings of all that have ended, in the order of the posts. -/
def endings (c : Crew ρ) : List (Nat × Ending) :=
  c.posts.filterMap fun p => p.stage.ending?.map (p.place, ·)

/-- Every worker has ended. -/
def IsDone (c : Crew ρ) : Prop := ∀ p ∈ c.posts, p.stage.ending?.isSome

/-- The outcomes in the order in which the workers ended. -/
def outcomes (c : Crew ρ) : List Outcome := c.joined.map fun x => x.2.outcome (x.1 + 1)

def result (c : Crew ρ) : Except Failure Message := merge c.outcomes

/-! ### Posts and desks -/

theorem post_split {c : Crew ρ} {p : Post} (hp : p ∈ c.posts) : ∃ before after,
    c.posts = before ++ p :: after ∧ (∀ q ∈ before, q.place ≠ p.place) ∧
      ∀ q ∈ after, q.place ≠ p.place := by
  obtain ⟨before, after, h⟩ := List.append_of_mem hp
  have hnd := c.places_nodup
  rw [h, List.map_append, List.map_cons, List.nodup_middle, List.nodup_cons] at hnd
  refine ⟨before, after, h, fun q hq he => hnd.1 ?_, fun q hq he => hnd.1 ?_⟩
  · exact List.mem_append_left _ (List.mem_map.mpr ⟨q, hq, he⟩)
  · exact List.mem_append_right _ (List.mem_map.mpr ⟨q, hq, he⟩)

theorem post?_eq_some {c : Crew ρ} {k : Nat} {p : Post} :
    c.post? k = some p ↔ p ∈ c.posts ∧ p.place = k := by
  constructor
  · intro h
    exact ⟨List.mem_of_find?_eq_some h, by simpa using List.find?_some h⟩
  · rintro ⟨hp, rfl⟩
    obtain ⟨before, after, h, hb, -⟩ := post_split hp
    have hnone : before.find? (·.place = p.place) = none :=
      List.find?_eq_none.mpr fun q hq => by simpa using hb q hq
    simp [post?, h, hnone]

theorem desk?_of_mem {c : Crew ρ} {p : Post} (hp : p ∈ c.posts) :
    ∃ r, c.resolvers[p.place]? = some r ∧ c.desk? p.place = some ⟨p.stage, r, p.deeds⟩ := by
  have hlt := c.place_lt p hp
  refine ⟨c.resolvers[p.place], List.getElem?_eq_getElem hlt, ?_⟩
  simp [desk?, post?_eq_some.mpr ⟨hp, rfl⟩, List.getElem?_eq_getElem hlt]

theorem exists_post_of_desk? {c : Crew ρ} {k : Nat} {d : Desk ρ} (h : c.desk? k = some d) :
    ∃ p ∈ c.posts, p.place = k ∧ p.stage = d.stage ∧ p.deeds = d.deeds ∧
      c.resolvers[k]? = some d.resolver := by
  obtain ⟨p, hpost, hdesk⟩ := Option.bind_eq_some_iff.mp h
  obtain ⟨r, hr, rfl⟩ := Option.map_eq_some_iff.mp hdesk
  obtain ⟨hp, hk⟩ := post?_eq_some.mp hpost
  exact ⟨p, hp, hk, rfl, rfl, hr⟩

theorem desk?_eq_none {c : Crew ρ} {k : Nat} (h : k ∉ c.posts.map Post.place) :
    c.desk? k = none := by
  cases hd : c.desk? k with
  | none => rfl
  | some d =>
    obtain ⟨p, hp, rfl, -⟩ := exists_post_of_desk? hd
    exact absurd (List.mem_map.mpr ⟨p, hp, rfl⟩) h

theorem isDone_iff {c : Crew ρ} :
    c.IsDone ↔ ∀ k d, c.desk? k = some d → d.stage.ending?.isSome := by
  constructor
  · intro h k d hd
    obtain ⟨p, hp, -, hs, -⟩ := exists_post_of_desk? hd
    exact hs ▸ h p hp
  · intro h p hp
    obtain ⟨r, -, hd⟩ := desk?_of_mem hp
    exact h _ _ hd

/-- The outcomes are those of the desks whose workers have ended. -/
theorem mem_outcomes {c : Crew ρ} (h : c.joined.Perm c.endings) {outcome : Outcome} :
    outcome ∈ c.outcomes ↔ ∃ k d ending, c.desk? k = some d ∧ d.stage = .ended ending ∧
      ending.outcome (k + 1) = outcome := by
  constructor
  · intro hin
    obtain ⟨⟨k, ending⟩, hjoined, houtcome⟩ := List.mem_map.mp hin
    obtain ⟨p, hp, hending⟩ := List.mem_filterMap.mp (h.mem_iff.mp hjoined)
    obtain ⟨ending', hstage, heq⟩ := Option.map_eq_some_iff.mp hending
    cases heq
    obtain ⟨r, -, hdesk⟩ := desk?_of_mem hp
    refine ⟨p.place, _, ending, hdesk, ?_, houtcome⟩
    cases hs : p.stage <;> simp_all [Stage.ending?]
  · rintro ⟨k, d, ending, hdesk, hstage, rfl⟩
    obtain ⟨p, hp, rfl, hsame, -⟩ := exists_post_of_desk? hdesk
    have hended : (p.place, ending) ∈ c.endings :=
      List.mem_filterMap.mpr ⟨p, hp, by simp [hsame, hstage]⟩
    exact List.mem_map.mpr ⟨_, h.mem_iff.mpr hended, rfl⟩

section Put

variable {c : Crew ρ} {k : Nat} {d : Desk ρ} {news : List (Nat × Ending)}

@[simp] theorem places_put : (c.put k d news).posts.map Post.place = c.posts.map Post.place := by
  simp only [put, List.map_map]
  refine List.map_congr_left fun p hp => ?_
  simp only [Function.comp_apply]
  split <;> rfl

theorem desk?_put_self {old : Desk ρ} (h : c.desk? k = some old) :
    (c.put k d news).desk? k = some d := by
  obtain ⟨p, hp, rfl, -, -, hr⟩ := exists_post_of_desk? h
  have hmem : (⟨p.place, d.stage, d.deeds⟩ : Post) ∈ (c.put p.place d news).posts :=
    List.mem_map.mpr ⟨p, hp, by simp⟩
  obtain ⟨r, hr', hd⟩ := desk?_of_mem hmem
  have hlt := (List.getElem?_eq_some_iff.mp hr).1
  simp only [put, List.getElem?_set_self hlt, Option.some.injEq] at hr'
  rw [hd, ← hr']

theorem desk?_put_other {j : Nat} (hj : j ≠ k) : (c.put k d news).desk? j = c.desk? j := by
  have hpost : (c.put k d news).post? j = c.post? j := by
    ext q
    simp only [post?_eq_some, put, List.mem_map]
    constructor
    · rintro ⟨⟨p, hp, rfl⟩, hpl⟩
      by_cases hk : p.place = k
      · simp [hk] at hpl
        exact absurd hpl.symm hj
      · simp only [hk, if_false] at hpl ⊢
        exact ⟨hp, hpl⟩
    · rintro ⟨hq, rfl⟩
      exact ⟨⟨q, hq, by simp [hj]⟩, rfl⟩
  rw [desk?, hpost, desk?, put, List.getElem?_set_ne (Ne.symm hj)]

/-- What ends is joined, and nothing else; a worker that ended before stays as it was. -/
theorem joined_put {old : Desk ρ} (h : c.desk? k = some old)
    (hkept : old.stage.ending?.isSome → d.stage = old.stage)
    (hjoined : c.joined.Perm c.endings) :
    (c.put k d (newly k old.stage d.stage)).joined.Perm
      (c.put k d (newly k old.stage d.stage)).endings := by
  obtain ⟨p, hp, rfl, hs, -, -⟩ := exists_post_of_desk? h
  obtain ⟨before, after, hsplit, hbefore, hafter⟩ := post_split hp
  have hold : c.endings = before.filterMap (fun q => q.stage.ending?.map (q.place, ·)) ++
      (p.stage.ending?.map (p.place, ·)).toList ++
      after.filterMap (fun q => q.stage.ending?.map (q.place, ·)) := by
    simp only [endings, hsplit, List.filterMap_append, List.filterMap_cons, List.append_assoc]
    cases p.stage.ending? <;> rfl
  have hnew : (c.put p.place d (newly p.place old.stage d.stage)).endings =
      before.filterMap (fun q => q.stage.ending?.map (q.place, ·)) ++
      (d.stage.ending?.map (p.place, ·)).toList ++
      after.filterMap (fun q => q.stage.ending?.map (q.place, ·)) := by
    have hkeep (qs : List Post) (hqs : ∀ q ∈ qs, q.place ≠ p.place) :
        qs.map (fun q => if q.place = p.place then ⟨q.place, d.stage, d.deeds⟩ else q) = qs := by
      refine (List.map_congr_left fun q hq => ?_).trans (List.map_id' qs)
      simp [hqs q hq]
    simp only [endings, put, hsplit, List.map_append, List.map_cons, hkeep before hbefore,
      hkeep after hafter, if_true, List.filterMap_append, List.filterMap_cons, List.append_assoc]
    cases d.stage.ending? <;> rfl
  rw [hnew]
  rw [hold, hs] at hjoined
  simp only [put]
  cases ho : old.stage.ending? with
  | some ending =>
    rw [hkept (by simp [ho])]
    simpa [newly, ho] using hjoined
  | none =>
    cases hd : d.stage.ending? with
    | none => simpa [newly, ho, hd] using hjoined
    | some ending =>
      simp only [ho, Option.map_none, Option.toList_none, List.append_nil] at hjoined
      simp only [newly, ho, hd, Option.map_some, Option.toList_some, List.append_assoc,
        List.singleton_append]
      exact (hjoined.append_right _).trans
        ((List.append_assoc _ _ _ ▸ List.perm_append_comm.append_left _))

end Put

variable [Resolver ρ]

def turn (maxFails : UInt32) (scope : Scope) (request : Request) (c : Crew ρ) (t : Turn) :
    Crew ρ :=
  match c.desk? t.place with
  | none => c
  | some d =>
    let next := d.turn maxFails scope request t.now
    c.put t.place next (newly t.place d.stage next.stage)

/-- The crew after a schedule. -/
def run (maxFails : UInt32) (scope : Scope) (request : Request) (c : Crew ρ)
    (schedule : List Turn) : Crew ρ :=
  schedule.foldl (turn maxFails scope request) c

variable {maxFails : UInt32} {scope : Scope} {request : Request}

theorem turn_of_desk? {c : Crew ρ} {t : Turn} {d : Desk ρ} (h : c.desk? t.place = some d) :
    c.turn maxFails scope request t =
      c.put t.place (d.turn maxFails scope request t.now)
        (newly t.place d.stage (d.turn maxFails scope request t.now).stage) := by
  simp [turn, h]

theorem turn_of_none {c : Crew ρ} {t : Turn} (h : c.desk? t.place = none) :
    c.turn maxFails scope request t = c := by
  simp [turn, h]

@[simp] theorem places_turn (c : Crew ρ) (t : Turn) :
    (c.turn maxFails scope request t).posts.map Post.place = c.posts.map Post.place := by
  cases h : c.desk? t.place with
  | none => rw [turn_of_none h]
  | some d => rw [turn_of_desk? h, places_put]

/-- A turn is seen at its own desk only. -/
theorem desk?_turn (c : Crew ρ) (t : Turn) (k : Nat) :
    (c.turn maxFails scope request t).desk? k =
      if t.place = k then (c.desk? k).map (Desk.turn maxFails scope request t.now)
      else c.desk? k := by
  cases h : c.desk? t.place with
  | none =>
    rw [turn_of_none h]
    split
    · next hk => rw [← hk, h]; rfl
    · rfl
  | some d =>
    rw [turn_of_desk? h]
    split
    · next hk =>
      subst hk
      rw [desk?_put_self h, h]
      rfl
    · next hk => exact desk?_put_other (Ne.symm hk)

/-- The instants at which a schedule gives a turn to a place. -/
def instants (k : Nat) (schedule : List Turn) : List Instant :=
  (schedule.filter (·.place = k)).map Turn.now

/-- A worker takes its own turns of a schedule, as if there were no others. -/
theorem desk?_run (schedule : List Turn) (c : Crew ρ) (k : Nat) :
    (c.run maxFails scope request schedule).desk? k =
      (c.desk? k).map (Desk.turns maxFails scope request (instants k schedule)) := by
  induction schedule generalizing c with
  | nil => exact Option.map_id'.symm
  | cons t schedule ih =>
    rw [run, List.foldl_cons, ← run, ih, desk?_turn]
    by_cases hk : t.place = k
    · simp only [hk, if_true, instants, List.filter_cons, decide_true, List.map_cons,
        Option.map_map]
      rfl
    · simp [hk, instants]

@[simp] theorem places_run (schedule : List Turn) (c : Crew ρ) :
    (c.run maxFails scope request schedule).posts.map Post.place = c.posts.map Post.place := by
  induction schedule generalizing c with
  | nil => rfl
  | cons t schedule ih => rw [run, List.foldl_cons, ← run, ih, places_turn]

/-- A resolver without a worker is left alone. -/
theorem resolvers_run_other {k : Nat} (schedule : List Turn) (c : Crew ρ)
    (hk : k ∉ c.posts.map Post.place) :
    (c.run maxFails scope request schedule).resolvers[k]? = c.resolvers[k]? := by
  induction schedule generalizing c with
  | nil => rfl
  | cons t schedule ih =>
    rw [run, List.foldl_cons, ← run, ih _ (by rwa [places_turn])]
    cases h : c.desk? t.place with
    | none => rw [turn_of_none h]
    | some d =>
      have hne : t.place ≠ k := by
        rintro rfl
        rw [desk?_eq_none hk] at h
        cases h
      rw [turn_of_desk? h, put, List.getElem?_set_ne hne]

/-- Exactly the workers that have ended are joined. -/
theorem joined_run (schedule : List Turn) (c : Crew ρ) (h : c.joined.Perm c.endings) :
    (c.run maxFails scope request schedule).joined.Perm
      (c.run maxFails scope request schedule).endings := by
  induction schedule generalizing c with
  | nil => exact h
  | cons t schedule ih =>
    refine ih _ ?_
    cases hd : c.desk? t.place with
    | none => rwa [turn_of_none hd]
    | some d =>
      rw [turn_of_desk? hd]
      refine joined_put hd (fun hsome => ?_) h
      obtain ⟨stage, r, deeds⟩ := d
      cases stage with
      | ended ending => rfl
      | ready | waiting | charging | asking | judging => cases hsome

end Crew

end DnsFanout
