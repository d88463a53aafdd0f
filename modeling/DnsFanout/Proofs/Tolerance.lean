import DnsFanout.Proofs.Accounting
import DnsFanout.Proofs.Crew.Dispatch
import Mathlib.Data.List.Induction

/-! Which closed connections are charged. Three in a row are free and the next is not; a
truncated reply that is asked for again over a stream goes between them unnoticed. -/

namespace DnsFanout

namespace Worker

/-- A closed connection that was not charged. -/
def Try.Free (a : Try) : Prop := a.result = .error .closedConnection ∧ a.charged = false

/-- The last `n` attempts were free. -/
def EndsFree (n : Nat) (tries : List Try) : Prop :=
  ∃ before last, tries = before ++ last ∧ last.length = n ∧ ∀ a ∈ last, a.Free

/-- None of the last `n` attempts escalated. -/
def EndsUnescalated (n : Nat) (tries : List Try) : Prop :=
  ∀ before last, tries = before ++ last → last.length = n → ∀ a ∈ last, ¬a.Escalates

/-- The attempts but for those that escalated. -/
def unescalated (tries : List Try) : List Try := tries.filter fun a => ¬a.Escalates

section

variable {tries : List Try} {a : Try} {n : Nat}

theorem Try.Free.not_escalates (h : a.Free) : ¬a.Escalates := by
  obtain ⟨begun, preference, ended, result, charged⟩ := a
  obtain rfl : result = .error .closedConnection := h.1
  exact id

theorem endsFree_zero (tries : List Try) : EndsFree 0 tries :=
  ⟨tries, [], (List.append_nil _).symm, rfl, fun _ ha => nomatch ha⟩

theorem not_endsFree_nil : ¬EndsFree (n + 1) [] := by
  rintro ⟨before, last, hsplit, hlength, -⟩
  obtain ⟨-, rfl⟩ := List.nil_eq_append_iff.mp hsplit
  cases hlength

theorem endsFree_concat : EndsFree (n + 1) (tries ++ [a]) ↔ a.Free ∧ EndsFree n tries := by
  constructor
  · rintro ⟨before, last, hsplit, hlength, hfree⟩
    obtain ⟨last, b, rfl⟩ : ∃ more b, last = more ++ [b] := by
      cases last using List.reverseRecOn with
      | nil => cases hlength
      | append_singleton more b => exact ⟨more, b, rfl⟩
    rw [← List.append_assoc] at hsplit
    obtain ⟨rfl, hab⟩ := List.append_inj' hsplit rfl
    obtain rfl := List.singleton_inj.mp hab
    refine ⟨hfree a (by simp), before, last, rfl, by simpa using hlength, fun b hb => ?_⟩
    exact hfree b (List.mem_append_left _ hb)
  · rintro ⟨ha, before, last, rfl, hlength, hfree⟩
    refine ⟨before, last ++ [a], by simp, by simp [hlength], fun b hb => ?_⟩
    rcases List.mem_append.mp hb with hb | hb
    · exact hfree b hb
    · obtain rfl := List.mem_singleton.mp hb
      exact ha

theorem unescalated_append (before after : List Try) :
    unescalated (before ++ after) = unescalated before ++ unescalated after :=
  List.filter_append ..

theorem unescalated_eq_self (h : ∀ a ∈ tries, ¬a.Escalates) : unescalated tries = tries := by
  rw [unescalated, List.filter_eq_self]
  exact fun a ha => by simpa using h a ha

theorem unescalated_concat (h : ¬a.Escalates) :
    unescalated (tries ++ [a]) = unescalated tries ++ [a] := by
  have hplain : ∀ b ∈ [a], ¬b.Escalates := by simpa using h
  rw [unescalated_append, unescalated_eq_self hplain]

theorem unescalated_concat_escalated (h : a.Escalates) :
    unescalated (tries ++ [a]) = unescalated tries := by
  simp [unescalated, h]

/-- Attempts end in free ones exactly if they do without the escalated ones, and none of these
stood among them. -/
theorem endsFree_iff :
    EndsFree n tries ↔ EndsFree n (unescalated tries) ∧ EndsUnescalated n tries := by
  constructor
  · rintro ⟨before, last, rfl, hlength, hfree⟩
    have hplain : ∀ a ∈ last, ¬a.Escalates := fun a ha => (hfree a ha).not_escalates
    refine ⟨⟨unescalated before, last, ?_, hlength, hfree⟩, fun before' last' hsplit hlast => ?_⟩
    · rw [unescalated_append, unescalated_eq_self hplain]
    · obtain ⟨-, rfl⟩ := List.append_inj' hsplit (hlength.trans hlast.symm)
      exact hplain
  · rintro ⟨⟨before, last, hsplit, hlength, hfree⟩, hplain⟩
    have hle : n ≤ tries.length := by
      have hfilter : (unescalated tries).length ≤ tries.length := List.length_filter_le ..
      rw [hsplit, List.length_append] at hfilter
      omega
    -- the last `n` attempts did not escalate, so they are the last that are left of all
    have htake := (List.take_append_drop (tries.length - n) tries).symm
    have hdrop : (tries.drop (tries.length - n)).length = n := by
      rw [List.length_drop]
      omega
    have hplain := hplain _ _ htake hdrop
    rw [htake, unescalated_append, unescalated_eq_self hplain] at hsplit
    obtain ⟨-, rfl⟩ := List.append_inj' hsplit (hdrop.trans hlength.symm)
    exact ⟨_, _, htake, hdrop, hfree⟩

end

section

variable {ρ : Type} [Resolver ρ] {maxFails : UInt32} {scope : Scope} {request : Request}
  {preference : Preference} {start : Instant} {r : ρ} {s : Standing ρ} {tries : List Try} {a : Try}

/-- The worker counts the free attempts since the last charge, whatever escalated since. -/
theorem Trail.le_uncounted_iff
    (h : Trail maxFails scope request ⟨⟨preference, 0, 0⟩, start, r⟩ tries s) (n : Nat) :
    n ≤ s.worker.uncounted ↔ EndsFree n (unescalated tries) := by
  induction h generalizing n with
  | start =>
    cases n with
    | zero => exact iff_of_true (Nat.le_refl _) (endsFree_zero _)
    | succ n => exact iff_of_false (Nat.not_succ_le_zero n) not_endsFree_nil
  | @more tries s w t r result next h ha ho hnext ih =>
    generalize hlast : (⟨s.now, s.worker.preference, t, result, next.charges⟩ : Try) = a
    cases ho with
    | free hfree =>
      cases hnext
      have hfree : a.Free := hlast ▸ ⟨rfl, rfl⟩
      rw [unescalated_concat hfree.not_escalates]
      cases n with
      | zero => exact iff_of_true (Nat.zero_le _) (endsFree_zero _)
      | succ n => rw [endsFree_concat, Nat.succ_le_succ_iff, ih, and_iff_right hfree]
    | escalated htruncated hescalates =>
      cases hnext
      have hescalated : a.Escalates := hlast ▸ ⟨htruncated, hescalates⟩
      -- neither the count nor the attempts without the escalated ones change
      rw [unescalated_concat_escalated hescalated]
      exact ih n
    | charged hcounts hcancelled hmore hopen =>
      cases hnext
      have hcharged : a.charged = true := hlast ▸ rfl
      have hplain : ¬a.Escalates := hlast ▸ id
      rw [unescalated_concat hplain]
      cases n with
      | zero => exact iff_of_true (Nat.zero_le _) (endsFree_zero _)
      | succ n =>
        rw [endsFree_concat]
        refine iff_of_false (Nat.not_succ_le_zero n) fun ⟨hfree, _⟩ => ?_
        cases hcharged.symm.trans hfree.2
    | _ => cases hnext

theorem Observed.charges_iff_of_closed {w : Worker} {cancelled expired : Bool} {next : Next}
    (h : Observed request maxFails cancelled expired w (.error .closedConnection) next)
    (hopen : cancelled = false) : next.charges = true ↔ tolerance ≤ w.uncounted := by
  cases h with
  | free hfree => exact iff_of_false nofun (Nat.not_le.mpr hfree)
  | abandoned hcounts hcancelled => cases hopen.symm.trans hcancelled
  | exhausted hcounts hcancelled hover => exact iff_of_true rfl (hcounts rfl)
  | charged hcounts hcancelled hmore hopen => exact iff_of_true rfl (hcounts rfl)

/-- Whether a closed connection is charged that comes after these attempts: three free ones have
to end them, the escalated ones left out. Three in a row without a gap say the same, unless an
escalation stands among the last three. -/
structure ChargedAfter (before : List Try) (charged : Bool) : Prop where
  exactly : charged = true ↔ EndsFree tolerance (unescalated before)
  inRow : (charged = true ↔ EndsFree tolerance before) ↔
    (EndsFree tolerance (unescalated before) → EndsUnescalated tolerance before)

theorem Trail.chargedAfter
    (h : Trail maxFails scope request ⟨⟨preference, 0, 0⟩, start, r⟩ tries s)
    (ha : s.Tries maxFails scope request a) (hclosed : a.result = .error .closedConnection) :
    ChargedAfter tries a.charged := by
  obtain ⟨t, r', result, next, hattempted, hobserved, rfl⟩ := ha
  obtain rfl : result = .error .closedConnection := hclosed
  have hopen := hattempted.open_of_closed
  have hexactly : next.charges = true ↔ EndsFree tolerance (unescalated tries) :=
    (hobserved.charges_iff_of_closed hopen).trans (h.le_uncounted_iff tolerance)
  have hrow : EndsFree tolerance tries ↔ _ := endsFree_iff
  refine ⟨hexactly, ?_⟩
  rw [hexactly, hrow, iff_self_and]

/-- Every attempt of every run comes after a trail of others, and they decide whether it is
charged when its connection is closed. The log of a run tells of the same attempts. -/
theorem closed_charged (maxFails : UInt32) (scope : Scope) (request : Request)
    (preference : Preference) (start : Instant) (r : ρ) :
    (∀ s, Rounds maxFails scope request ⟨⟨preference, 0, 0⟩, start, r⟩ s →
      ∃ tries, Trail maxFails scope request ⟨⟨preference, 0, 0⟩, start, r⟩ tries s) ∧
    (∀ tries s t r', Trail maxFails scope request ⟨⟨preference, 0, 0⟩, start, r⟩ tries s →
      s.attempt scope request = (some (.answered (.error .closedConnection), t), r') →
      ChargedAfter tries (s.next maxFails scope request t (.error .closedConnection)).charges) ∧
    ∀ log outcome, logged maxFails scope request ⟨preference, 0, 0⟩ start r = some log →
      log.ending = .settled outcome →
      ∃ tries, log.entries = tries.flatMap (Try.entries maxFails scope) ∧
        ∀ before a after, tries = before ++ a :: after → a.result = .error .closedConnection →
          ChargedAfter before a.charged := by
  refine ⟨fun s hs => exists_trail hs, fun tries s t r' htrail ha => ?_,
    fun log outcome hlog hending => ?_⟩
  · exact htrail.chargedAfter
      ⟨t, r', _, _, attempted_of_attempt ha, observed .., rfl⟩ rfl
  · obtain ⟨tries, hstory, hentries, -⟩ := story_of_logged hlog hending
    refine ⟨tries, hentries, fun before a after hsplit hclosed => ?_⟩
    obtain ⟨s, hs, ha⟩ := hstory.exists_trail .start hsplit
    exact hs.chargedAfter ha hclosed

end

end Worker

namespace Rehearsal

/-- A resolver that closes every connection, but for a truncated answer after the first. -/
def wavering : Resolver where
  address := "10.0.0.1:53"
  script := [⟨.fail .closedConnection, 0⟩, ⟨.answer 0 true [], 0⟩]
  fallback := ⟨.fail .closedConnection, 0⟩

open Worker

def closedTry (forceStream : Bool) : Try :=
  ⟨0, { forceStream, preferDatagram := true }, 0, .error .closedConnection, false⟩

def truncatedTry : Try :=
  ⟨0, { preferDatagram := true }, 0, .ok (answer rootQuery 0 true []), false⟩

/-- The first four attempts are free of charge, and the fifth is not. -/
theorem trail_wavering : ∃ s r,
    Trail 1 {} rootQuery ⟨⟨{ preferDatagram := true }, 0, 0⟩, 0, wavering⟩
      [closedTry false, truncatedTry, closedTry true, closedTry true] s ∧
    s.attempt {} rootQuery = (some (.answered (.error .closedConnection), 0), r) ∧
    (s.next 1 {} rootQuery 0 (.error .closedConnection)).charges = true := by
  let start : Standing Resolver := ⟨⟨{ preferDatagram := true }, 0, 0⟩, 0, wavering⟩
  have hfirst : Trail 1 {} rootQuery start [closedTry false]
      ⟨⟨{ preferDatagram := true }, 0, 1⟩, 0, _⟩ := Trail.start.again rfl rfl
  have hsecond : Trail 1 {} rootQuery start [closedTry false, truncatedTry]
      ⟨⟨{ forceStream := true, preferDatagram := true }, 0, 1⟩, 0, _⟩ := hfirst.again rfl rfl
  have hthird : Trail 1 {} rootQuery start [closedTry false, truncatedTry, closedTry true]
      ⟨⟨{ forceStream := true, preferDatagram := true }, 0, 2⟩, 0, _⟩ := hsecond.again rfl rfl
  exact ⟨_, _, hthird.again rfl rfl, rfl, rfl⟩

theorem charged_wavering : ∃ tries s r,
    Trail 1 {} rootQuery ⟨⟨{ preferDatagram := true }, 0, 0⟩, 0, wavering⟩ tries s ∧
    s.attempt {} rootQuery = (some (.answered (.error .closedConnection), 0), r) ∧
    (s.next 1 {} rootQuery 0 (.error .closedConnection)).charges = true ∧
    EndsFree tolerance (unescalated tries) ∧ ¬EndsUnescalated tolerance tries := by
  obtain ⟨s, r, htrail, ha, hcharges⟩ := trail_wavering
  obtain ⟨-, hcharged, -⟩ :=
    closed_charged 1 {} rootQuery { preferDatagram := true } 0 wavering
  have hafter := hcharged _ s 0 r htrail ha
  refine ⟨_, s, r, htrail, ha, hcharges, hafter.exactly.mp hcharges, fun hplain => ?_⟩
  have hplain := hplain [closedTry false] _ rfl rfl truncatedTry List.mem_cons_self
  exact hplain (by decide)

/-- The fifth attempt is charged, though only the two before it were closed in a row. -/
theorem charged_out_of_row : ∃ tries s r,
    Trail 1 {} rootQuery ⟨⟨{ preferDatagram := true }, 0, 0⟩, 0, wavering⟩ tries s ∧
    s.attempt {} rootQuery = (some (.answered (.error .closedConnection), 0), r) ∧
    (s.next 1 {} rootQuery 0 (.error .closedConnection)).charges = true ∧
    ¬EndsFree tolerance tries := by
  obtain ⟨s, r, htrail, ha, hcharges⟩ := trail_wavering
  refine ⟨_, s, r, htrail, ha, hcharges, fun hends => ?_⟩
  have hplain := (endsFree_iff.mp hends).2 [closedTry false] _ rfl rfl truncatedTry
    List.mem_cons_self
  exact hplain (by decide)

end Rehearsal

end DnsFanout
