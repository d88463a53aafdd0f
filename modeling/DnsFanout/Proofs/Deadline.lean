import DnsFanout.Proofs.Crew.Serial
import DnsFanout.Rehearsal.Resolver

/-! A query in a scope that ends. Whatever its resolvers do, it is over by then: nothing is
sent any more, a worker that is still at it is charged once, or not at all if the query was
cancelled, and what was answered before is kept. -/

namespace DnsFanout

open Worker

namespace Worker

/-- The failures that are charged at an instant. -/
def charges (t : Instant) (entries : List (Instant × Deed)) : Nat :=
  (entries.filter fun entry => decide (entry.1 = t) && entry.2.isCharge).length

variable {ρ : Type} [Resolver ρ] {maxFails : UInt32} {scope : Scope} {request : Request}
  {stop : Instant}

theorem charges_append (t : Instant) (before after : List (Instant × Deed)) :
    charges t (before ++ after) = charges t before + charges t after := by
  simp [charges]

theorem charges_heard (w : Worker) (now u t : Instant) (result : Except Failure Message) :
    charges t (w.opening scope now ++ [(u, .heard result)]) = 0 := by
  unfold opening
  split <;> simp [charges, Deed.isCharge]

theorem charges_charging (u t : Instant) :
    charges t (charging maxFails u) = if u = t then 1 else 0 := by
  by_cases hmax : maxFails = 0 <;> by_cases hu : u = t <;>
    simp [charges, charging, Deed.isCharge, hmax, hu]

/-- A worker within a scope that ends at an instant, begun at another. -/
structure Log.Timely (scope : Scope) (stop now : Instant) (log : Log ρ) : Prop where
  finished : log.finished ≤ max now stop
  sent : ∀ t preference, (t, Deed.sent preference) ∈ log.entries → t < stop
  /-- Nothing reaches the health of the resolver after a cancellation. -/
  reaching : ∀ entry ∈ log.entries, entry.2.reaches = true → scope.isCancelled entry.1 = false
  /-- A worker that is still running at the end is charged there, once. -/
  charged : log.finished = max now stop →
    charges (max now stop) log.entries = if scope.isCancelled (max now stop) then 0 else 1

/-- An attempt is sent before the scope ends, or not at all. -/
theorem mem_opening {w : Worker} {now : Instant} {entry : Instant × Deed}
    (hstop : scope.stop? = some stop) (h : entry ∈ w.opening scope now) :
    entry.1 < stop ∧ entry.2.reaches = false := by
  unfold opening at h
  split at h
  · cases h
  · next hopen =>
    obtain rfl := List.mem_singleton.mp h
    exact ⟨Scope.verdict?_eq_none_iff.mp (by simpa using hopen) stop hstop, rfl⟩

theorem sent_round {w : Worker} {now t u : Instant} {preference : Preference}
    {result : Except Failure Message} (hstop : scope.stop? = some stop)
    (h : (t, Deed.sent preference) ∈ w.opening scope now ++ [(u, .heard result)]) : t < stop := by
  rcases List.mem_append.mp h with h | h
  · exact (mem_opening hstop h).1
  · simp at h

theorem not_reaching_round {w : Worker} {now u : Instant} {result : Except Failure Message}
    {entry : Instant × Deed} (hstop : scope.stop? = some stop)
    (h : entry ∈ w.opening scope now ++ [(u, .heard result)]) : entry.2.reaches = false := by
  rcases List.mem_append.mp h with h | h
  · exact (mem_opening hstop h).2
  · rw [List.mem_singleton.mp h]
    rfl

theorem mem_charging {t : Instant} {entry : Instant × Deed}
    (h : entry ∈ charging maxFails t) : entry.1 = t ∧ ∀ preference, entry.2 ≠ .sent preference := by
  unfold charging at h
  split at h <;> simp at h
  · rw [h]
    exact ⟨rfl, by simp⟩
  · rcases h with rfl | rfl <;> exact ⟨rfl, by simp⟩

section

variable {w w' : Worker} {now t : Instant} {r r' : ρ} {result : Except Failure Message}

theorem Attempted.le_end {a : Attempt} (hstop : scope.stop? = some stop)
    (ha : Attempted scope request w now r a t r') : t ≤ max now stop := by
  cases ha with
  | shut hover => exact Nat.le_max_left now stop
  | ended hopen hr ht =>
    have hlt : t < stop := Scope.verdict?_eq_none_iff.mp ht stop hstop
    exact Nat.le_trans (Nat.le_of_lt hlt) (Nat.le_max_right now stop)
  | cut hopen hr hcut ht =>
    obtain rfl : stop = t := Option.some.inj (hstop.symm.trans hcut)
    exact Nat.le_max_right now stop

/-- An attempt that lasts until the end fails with the scope. -/
theorem Attempted.over_at_end {a : Attempt} (hstop : scope.stop? = some stop)
    (ha : Attempted scope request w now r a t r') (ht : t = max now stop) :
    ∃ cause, a = .answered (.error cause) ∧ scope.verdict? t = some cause := by
  cases ha with
  | shut hover => exact ⟨_, rfl, hover⟩
  | cut hopen hr hcut hover => exact ⟨_, rfl, hover⟩
  | ended hopen hr hfree =>
    have hlt : t < stop := Scope.verdict?_eq_none_iff.mp hfree stop hstop
    exact absurd (ht ▸ Nat.le_max_right now stop) (Nat.not_le.mpr hlt)

theorem Attempted.before_end (hstop : scope.stop? = some stop)
    (ha : Attempted scope request w now r (.answered result) t r')
    (ho : w.observe request maxFails (scope.isCancelled t) (scope.isExpired t) result =
        .again w' ∨
      w.observe request maxFails (scope.isCancelled t) (scope.isExpired t) result =
        .charged w') : now < stop ∧ t < stop := by
  have hopen := ha.open_of_goes_on ho
  have ht : t < stop := Scope.verdict?_eq_none_iff.mp hopen stop hstop
  refine ⟨?_, ht⟩
  cases ha with
  | shut hover => exact ht
  | ended hfirst => exact Scope.verdict?_eq_none_iff.mp hfirst stop hstop
  | cut hfirst => exact Scope.verdict?_eq_none_iff.mp hfirst stop hstop

end

omit [Resolver ρ] in
/-- What is done before the end does not count at the end. -/
theorem Log.Timely.after {now t : Instant} {log : Log ρ} {before : List (Instant × Deed)}
    (h : log.Timely scope stop t) (hnow : now < stop) (ht : t < stop)
    (hsent : ∀ u preference, (u, Deed.sent preference) ∈ before → u < stop)
    (hreaching : ∀ entry ∈ before, entry.2.reaches = true → scope.isCancelled entry.1 = false)
    (hcharges : charges stop before = 0) : (log.after before).Timely scope stop now := by
  have hend : max now stop = stop := Nat.max_eq_right (Nat.le_of_lt hnow)
  have hend' : max t stop = stop := Nat.max_eq_right (Nat.le_of_lt ht)
  constructor
  case finished => exact hend.symm ▸ hend' ▸ h.finished
  case sent =>
    intro u preference hu
    rcases List.mem_append.mp hu with hu | hu
    · exact hsent u preference hu
    · exact h.sent u preference hu
  case reaching =>
    intro entry hentry
    rcases List.mem_append.mp hentry with hentry | hentry
    · exact hreaching entry hentry
    · exact h.reaching entry hentry
  case charged =>
    intro hfinished
    have hlast := h.charged
    rw [hend'] at hlast
    rw [hend] at hfinished ⊢
    rw [Log.after, charges_append, hcharges, hlast hfinished, Nat.zero_add]

theorem timely_logged (hstop : scope.stop? = some stop) {w : Worker} {now : Instant} {r : ρ}
    {log : Log ρ} (h : logged maxFails scope request w now r = some log) :
    log.Timely scope stop now := by
  refine logged_induction (motive := fun _ now _ log => log.Timely scope stop now)
    ?crashed ?again ?charged ?done w now r log h
  case crashed =>
    intro w now t r r' detail ha
    constructor
    case finished => exact ha.le_end hstop
    case sent => exact fun u preference hu => (mem_opening hstop hu).1
    case reaching =>
      intro entry hentry hreaches
      simp [(mem_opening hstop hentry).2] at hreaches
    case charged =>
      intro ht
      obtain ⟨cause, heq, -⟩ := ha.over_at_end hstop ht
      cases heq
  case again =>
    intro w w' now t r r' result log ha ho ih
    obtain ⟨hnow, ht⟩ := ha.before_end hstop (.inl ho)
    refine ih.after hnow ht (fun u preference hu => sent_round hstop hu)
      (fun entry hentry hreaches => ?_) (charges_heard ..)
    simp [not_reaching_round hstop hentry] at hreaches
  case charged =>
    intro w w' now t r r' result log ha ho ih
    -- what is charged here is charged before the end
    obtain ⟨hnow, ht⟩ := ha.before_end hstop (.inr ho)
    refine ih.after hnow ht (fun u preference hu => ?_) (fun entry hentry hreaches => ?_) ?_
    · rcases List.mem_append.mp hu with hu | hu
      · exact sent_round hstop hu
      · exact absurd rfl ((mem_charging hu).2 preference)
    · rcases List.mem_append.mp hentry with hentry | hentry
      · simp [not_reaching_round hstop hentry] at hreaches
      · rw [(mem_charging hentry).1]
        exact not_cancelled_of_charges (by rw [ho]; rfl)
    · rw [charges_append, charges_heard, charges_charging, if_neg (Nat.ne_of_lt ht)]
  case done =>
    intro w now t r r' result charged outcome ha ho
    constructor
    case finished => exact ha.le_end hstop
    case sent =>
      intro u preference hu
      rcases List.mem_append.mp hu with hu | hu
      · exact sent_round hstop hu
      · cases charged with
        | true => exact absurd rfl ((mem_charging hu).2 preference)
        | false => cases hu
    case reaching =>
      intro entry hentry hreaches
      rcases List.mem_append.mp hentry with hentry | hentry
      · simp [not_reaching_round hstop hentry] at hreaches
      · cases charged with
        | true =>
          rw [(mem_charging hentry).1]
          exact not_cancelled_of_charges (by rw [ho]; rfl)
        | false => cases hentry
    case charged =>
      intro ht
      dsimp only at ht
      -- the scope ended the attempt, and told the worker whether it was cancelled
      obtain ⟨cause, heq, hover⟩ := ha.over_at_end hstop ht
      obtain rfl := Attempt.answered.inj heq
      rw [observe_of_verdict hover] at ho
      obtain ⟨rfl, -⟩ := Next.done.inj ho
      rw [charges_append, charges_heard, ← ht, Nat.zero_add]
      cases scope.isCancelled t with
      | true => rfl
      | false => exact (charges_charging t t).trans (if_pos rfl)

theorem logged_isSome (hstop : scope.stop? = some stop) (w : Worker) (now : Instant) (r : ρ) :
    (logged maxFails scope request w now r).isSome := by
  fun_induction logged maxFails scope request w now r with
  | case1 w now r r' ha =>
    have hsome := attempt_isSome hstop request w now r
    rw [ha] at hsome
    cases hsome
  | case2 => rfl
  | case3 w now r result t r' ha heard w' ho ih =>
    rw [Option.isSome_map]
    exact ih
  | case4 w now r result t r' ha heard w' ho ih =>
    rw [Option.isSome_map]
    exact ih
  | case5 => rfl

end Worker

variable {ρ η : Type} [DnsFanout.Resolver ρ]

namespace Forwarder

omit [DnsFanout.Resolver ρ] in
theorem getElem?_foldl_set_other {logs : List (Log ρ × Nat)} {k : Nat}
    (hk : k ∉ logs.map Prod.snd) (resolvers : List ρ) :
    (logs.foldl (fun rs x => rs.set x.2 x.1.resolver) resolvers)[k]? = resolvers[k]? := by
  induction logs generalizing resolvers with
  | nil => rfl
  | cons x logs ih =>
    simp only [List.map_cons, List.mem_cons, not_or] at hk
    rw [List.foldl_cons, ih hk.2, List.getElem?_set_ne (Ne.symm hk.1)]

omit [DnsFanout.Resolver ρ] in
theorem getElem?_restore {logs : List (Log ρ × Nat)} {x : Log ρ × Nat} {resolvers : List ρ}
    (hnodup : (logs.map Prod.snd).Nodup) (hx : x ∈ logs) (hlt : x.2 < resolvers.length) :
    (restore resolvers (runs logs))[x.2]? = some x.1.resolver := by
  rw [restore_runs]
  induction logs generalizing resolvers with
  | nil => cases hx
  | cons y logs ih =>
    obtain ⟨hy, hnodup⟩ := List.nodup_cons.mp hnodup
    rw [List.foldl_cons]
    rcases List.mem_cons.mp hx with rfl | hx
    · rw [getElem?_foldl_set_other hy, List.getElem?_set_self hlt]
    · exact ih hnodup hx (by rwa [List.length_set])

/-- What becomes of a query that has to be over at an instant, in terms of the logs of its
workers. -/
structure Within (f : Forwarder ρ η) (scope : Scope) (request : Request) (start close : Instant)
    (logs : List (Log ρ × Nat)) (done : FanOut ρ η) : Prop where
  alone : f.Alone scope request start logs
  /-- The logs tell all that is done to the resolvers. -/
  told : ∀ x ∈ logs, ∃ r, f.resolvers[x.2]? = some r ∧
    done.forwarder.resolvers[x.2]? = some (replay scope request r x.1.entries)
  finished : done.finished ≤ close
  sent : ∀ x ∈ logs, ∀ t preference, (t, Deed.sent preference) ∈ x.1.entries → t < close
  /-- The addresses of all successes make the answer. -/
  answers : ∀ reply, done.result = .ok reply →
    reply.answers.Perm (logs.flatMap fun x => (x.1.ending.outcome (x.2 + 1)).addresses)
  kept : ∀ x ∈ logs, ∀ given, x.1.ending = .settled (.success given) → x.1.finished < close →
    given.addresses ≠ [] → ∃ reply, done.result = .ok reply ∧ given.addresses ⊆ reply.answers
  /-- A worker that is still running when the query is over is charged once, unless the query
  is cancelled then. -/
  charged : ∀ x ∈ logs, ¬x.1.finished < close →
    charges close x.1.entries = if scope.isCancelled close then 0 else 1
  /-- After a cancellation nothing reaches the health of a resolver. -/
  cancelled : ∀ x ∈ logs, ∀ entry ∈ x.1.entries, entry.2.reaches = true →
    scope.isCancelled entry.1 = false

/-- A query in a scope that ends, be it by a deadline, by a cancellation or by the earlier of
both, is over by then, or at once if the scope has ended before. -/
theorem forward_within (f : Forwarder ρ η) (request : Request) (start : Instant) {scope : Scope}
    {stop : Instant} (hstop : scope.stop? = some stop) :
    ∃ logs done, f.forward start scope request = some done ∧
      f.Within scope request start (max start stop) logs done := by
  obtain ⟨logs, hlogs⟩ : ∃ logs, f.logs scope request start = some logs :=
    exists_logs fun r _ => logged_isSome hstop f.fresh start r
  have halone := alone_of_logs hlogs
  have htimely : ∀ x ∈ logs, x.1.Timely scope stop start := by
    intro x hx
    obtain ⟨r, -, hlog, -⟩ := halone.logged x hx
    exact timely_logged hstop hlog
  have houtcomes : (outcomes (runs logs)).Perm
      (logs.map fun x => x.1.ending.outcome (x.2 + 1)) := by
    have hperm := outcomes_perm (runs logs)
    rwa [runs, List.map_map] at hperm
  refine ⟨logs, _, by rw [forward_eq, hlogs]; rfl, ?_⟩
  constructor
  case alone => exact halone
  case told =>
    intro x hx
    obtain ⟨r, hr, hlog, -⟩ := halone.logged x hx
    refine ⟨r, hr, ?_⟩
    rw [← resolver_logged hlog]
    exact getElem?_restore halone.nodup hx (List.getElem?_eq_some_iff.mp hr).1
  case finished =>
    refine finished_le_iff.mpr ⟨Nat.le_max_left start stop, fun run hrun => ?_⟩
    obtain ⟨x, hx, rfl⟩ := List.mem_map.mp hrun
    exact (htimely x hx).finished
  case sent =>
    intro x hx t preference ht
    exact Nat.lt_of_lt_of_le ((htimely x hx).sent t preference ht) (Nat.le_max_right start stop)
  case answers =>
    intro reply hreply
    have hflat := houtcomes.flatMap_right Outcome.addresses
    rw [List.flatMap_map] at hflat
    rwa [merge_answers hreply]
  case kept =>
    rintro x hx given hgiven - hne
    have hin : .success given ∈ outcomes (runs logs) := by
      refine houtcomes.mem_iff.mpr (List.mem_map.mpr ⟨x, hx, ?_⟩)
      rw [hgiven]
      rfl
    obtain ⟨reply, hreply⟩ := merge_isOk_iff.mpr ⟨given, hin, hne⟩
    refine ⟨reply, hreply, fun record hrecord => ?_⟩
    rw [merge_answers hreply]
    exact List.mem_flatMap.mpr ⟨_, hin, hrecord⟩
  case charged =>
    intro x hx hlast
    have hle := (htimely x hx).finished
    exact (htimely x hx).charged (Nat.le_antisymm hle (Nat.le_of_not_lt hlast))
  case cancelled =>
    intro x hx
    exact (htimely x hx).reaching

end Forwarder

namespace Rehearsal

/-- One resolver fails and then crashes, the other never answers. -/
def hanging : Forwarder Resolver Unit where
  resolvers := [
    { address := "10.0.0.1:53", script := [⟨.fail .timeout, 5⟩], fallback := ⟨.crash, 10⟩ },
    { address := "10.0.0.2:53", script := [], fallback := ⟨.hang, 0⟩ }]
  rotation := .sequential

theorem forward_within_hanging :
    ({ deadline := some 50, cancelledAt := some 60 } : Scope).stop? = some 50 ∧
    ∃ logs done,
      hanging.forward 0 { deadline := some 50, cancelledAt := some 60 } rootQuery = some done ∧
      hanging.Within { deadline := some 50, cancelledAt := some 60 } rootQuery 0 50 logs done :=
  ⟨rfl, Forwarder.forward_within hanging rootQuery 0 rfl⟩

end Rehearsal

end DnsFanout
