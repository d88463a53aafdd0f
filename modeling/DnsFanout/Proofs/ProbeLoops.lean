import DnsFanout.Proofs.Incident
import Mathlib.Logic.Function.Basic

/-! The probe loops of a resolver, any number of them, beside the workers that ask for them and
the one who stops the resolver. The slot is held by one loop or by none; a good probe and, before
long, a stop end the loop that holds it. -/

namespace DnsFanout

open Net

/-- Where a probe loop stands: before a probe, waiting for its reply, after one that failed, in the
pause after that, or about to give the slot back. -/
inductive Phase
  | ready
  | waiting (id : UInt16)
  | tired
  | pausing (till : Instant)
  | leaving

/-- A resolver and its probe loops by number; a loop that has ended, or has not begun, has no
phase, and loops get their numbers as they begin. -/
structure Probing (ω : Type) where
  proxy : Proxy ω
  phase : Nat → Option Phase := fun _ => none
  begun : Nat := 0

namespace Probing

inductive Deed
  | send (id : UInt16) (now : Instant)
  | hear (result : Except Failure Message)
  /-- The loop looks whether its pause is over. -/
  | look (now : Instant)
  | leave

def Deed.isSend : Deed → Bool
  | send .. => true
  | hear _ | look _ | leave => false

inductive Event
  | attempt (now : Instant) (scope : Scope) (request : Request) (preference : Preference)
  | charge
  /-- Somebody asks for a probe, with or without a runtime that loops can run on. -/
  | ask (runtime : Bool)
  | stop (now : Instant)
  | loop (i : Nat) (deed : Deed)

def Event.own? (i : Nat) : Event → Option Deed
  | loop j deed => if j = i then some deed else none
  | attempt .. | charge | ask _ | stop _ => none

def own (i : Nat) (events : List Event) : List Deed := events.filterMap (Event.own? i)

variable {ω : Type}

/-- What a loop sees of its pause: that the resolver was stopped, if it was, or that the time has
come, if it has, or neither. -/
inductive Look (p : Proxy ω) (till now : Instant) : Phase → Prop
  | stopped (h : p.stopped = true) : Look p till now .leaving
  | due (h : till ≤ now) : Look p till now .ready
  | early (hrunning : p.stopped = false) (h : now < till) : Look p till now (.pausing till)

/-- Whoever gets the slot begins a loop. Without a runtime there is nothing to run, and the slot
is given back as at the end of a loop. -/
def ask (runtime : Bool) (s : Probing ω) : Probing ω :=
  let proxy := s.proxy.requestProbe
  if !s.proxy.health.probing && proxy.health.probing then
    ⟨proxy, Function.update s.phase s.begun (some (if runtime then .ready else .leaving)),
      s.begun + 1⟩
  else { s with proxy }

variable [Network ω]

/-- A loop goes from one phase to another, or ends. The first look at a pause is a part of its
beginning. -/
inductive Move (p : Proxy ω) : Phase → Deed → Option Phase → Proxy ω → Prop
  | send (id : UInt16) (now : Instant) :
    Move p .ready (.send id now) (some (.waiting id)) (p.meet (.probe id now))
  | good {id : UInt16} {result : Except Failure Message} (h : Proxy.judge id result = .ok ()) :
    Move p (.waiting id) (.hear result) (some .leaving) (p.meet .good)
  | bad {id : UInt16} {result : Except Failure Message} {cause : Failure}
    (h : Proxy.judge id result = .error cause) :
    Move p (.waiting id) (.hear result) (some .tired) (p.meet .bad)
  | pause {now : Instant} {next : Phase} (h : Look p (now + p.health.interval.toNat) now next) :
    Move p .tired (.look now) (some next) p
  | wake {till now : Instant} {next : Phase} (h : Look p till now next) :
    Move p (.pausing till) (.look now) (some next) p
  | leave : Move p .leaving .leave none (p.meet .leave)

def meet (s : Probing ω) (e : Incident) : Probing ω := { s with proxy := s.proxy.meet e }

theorem proxy_meet (s : Probing ω) (e : Incident) : (s.meet e).proxy = s.proxy.meet e := rfl

inductive Step : Probing ω → Event → Probing ω → Prop
  | attempt (s : Probing ω) (now : Instant) (scope : Scope) (request : Request)
    (preference : Preference) :
    Step s (.attempt now scope request preference) (s.meet (.attempt now scope request preference))
  | charge (s : Probing ω) : Step s .charge (s.meet .charge)
  | ask (s : Probing ω) (runtime : Bool) : Step s (.ask runtime) (s.ask runtime)
  | stop (s : Probing ω) (now : Instant) : Step s (.stop now) (s.meet (.shut now))
  | loop {s : Probing ω} {i : Nat} {phase : Phase} {deed : Deed} {next : Option Phase}
    {proxy : Proxy ω} (hphase : s.phase i = some phase) (h : Move s.proxy phase deed next proxy) :
    Step s (.loop i deed) ⟨proxy, Function.update s.phase i next, s.begun⟩

inductive Run : Probing ω → List Event → Probing ω → Prop
  | nil (s : Probing ω) : Run s [] s
  | cons {s s' s'' : Probing ω} {e : Event} {events : List Event} (h : Step s e s')
    (hrun : Run s' events s'') : Run s (e :: events) s''

section Move

variable {p p' : Proxy ω} {phase : Phase} {deed : Deed} {next : Option Phase}

theorem Move.probing (h : Move p phase deed next p') :
    p'.health.probing = (p.health.probing && next.isSome) := by
  cases h with
  | send | good | bad =>
    refine (p.probing_meet ?_ ?_).trans (Bool.and_true _).symm
    · exact nofun
    · exact nofun
  | pause | wake => exact (Bool.and_true _).symm
  | leave => exact (Bool.and_false _).symm

theorem Move.stopped (h : Move p phase deed next p') (hstopped : p.stopped = true) :
    p'.stopped = true := by
  cases h with
  | pause | wake => exact hstopped
  | _ => rw [p.stopped_meet, hstopped, Bool.true_or]

theorem Move.interval (h : Move p phase deed next p') :
    p'.health.interval = p.health.interval := by
  cases h with
  | pause | wake => rfl
  | _ => exact p.interval_meet nofun

theorem Move.met (h : Move p phase deed next p') : p' = p ∨ ∃ e, p' = p.meet e := by
  cases h with
  | pause | wake => exact .inl rfl
  | _ => exact .inr ⟨_, rfl⟩

theorem Move.of_leaving (h : Move p .leaving deed next p') : deed = .leave ∧ next = none := by
  cases h with
  | leave => exact ⟨rfl, rfl⟩

theorem Move.of_good {id : UInt16} {result : Except Failure Message}
    (h : Move p (.waiting id) (.hear result) next p') (hgood : Proxy.judge id result = .ok ()) :
    next = some .leaving := by
  cases h with
  | good => rfl
  | bad hbad => cases hgood.symm.trans hbad

/-- The probes that a loop can still begin once the resolver is stopped. -/
def ahead : Option Phase → Nat
  | some .ready | some (.pausing _) => 1
  | some (.waiting _) | some .tired | some .leaving | none => 0

def left : Option Phase → Nat
  | some (.pausing _) => 5
  | some .ready => 4
  | some (.waiting _) => 3
  | some .tired => 2
  | some .leaving => 1
  | none => 0

theorem eq_none_of_left {phase : Option Phase} (h : left phase = 0) : phase = none := by
  rcases phase with _ | (_ | _ | _ | _ | _)
  · rfl
  all_goals cases h

theorem left_le (phase : Option Phase) : left phase ≤ 5 := by
  rcases phase with _ | (_ | _ | _ | _ | _) <;> simp [left]

theorem ahead_le (phase : Option Phase) : ahead phase ≤ 1 := by
  rcases phase with _ | (_ | _ | _ | _ | _) <;> simp [ahead]

theorem Move.spends (h : Move p phase deed next p') (hstopped : p.stopped = true)
    (hinterval : p.health.interval ≠ 0) :
    [deed].countP Deed.isSend + ahead next ≤ ahead (some phase) ∧
      left next < left (some phase) := by
  have hlong : 0 < p.health.interval.toNat := by
    refine Nat.pos_of_ne_zero fun hzero => hinterval ?_
    exact UInt64.toNat_inj.mp hzero
  cases h with
  | send | good | bad | leave => simp [ahead, left, Deed.isSend]
  | pause hlook =>
    -- a pause takes time, so that a new one cannot be over at its first look
    cases hlook with
    | stopped => simp [ahead, left, Deed.isSend]
    | due hdue => exact absurd hdue (Nat.not_le.mpr (Nat.lt_add_of_pos_right hlong))
    | early hrunning => simp [hrunning] at hstopped
  | wake hlook =>
    cases hlook with
    | stopped | due => simp [ahead, left, Deed.isSend]
    | early hrunning => simp [hrunning] at hstopped

theorem exists_move (p : Proxy ω) (hstopped : p.stopped = true) (phase : Phase) :
    ∃ deed next p', Move p phase deed next p' := by
  cases phase with
  | ready => exact ⟨_, _, _, .send 0 0⟩
  | waiting id => exact ⟨.hear (.error .timeout), _, _, .bad rfl⟩
  | tired => exact ⟨.look 0, _, _, .pause (.stopped hstopped)⟩
  | pausing till => exact ⟨.look 0, _, _, .wake (.stopped hstopped)⟩
  | leaving => exact ⟨_, _, _, .leave⟩

end Move

/-! ### Steps -/

variable {s s' : Probing ω} {e : Event} {events : List Event} {i : Nat}

omit [Network ω] in
theorem ask_eq (runtime : Bool) (s : Probing ω) : s.ask runtime =
    if s.proxy.stopped = false ∧ s.proxy.health.probing = false then
      ⟨{ s.proxy with health := { s.proxy.health with probing := true } },
        Function.update s.phase s.begun (some (if runtime then .ready else .leaving)), s.begun + 1⟩
    else s := by
  unfold ask
  rw [Proxy.requestProbe_eq]
  by_cases hfree : s.proxy.stopped = false ∧ s.proxy.health.probing = false
  · simp [hfree]
  · simp [hfree]

omit [Network ω] in
theorem proxy_ask (runtime : Bool) (s : Probing ω) :
    (s.ask runtime).proxy = s.proxy.requestProbe := by
  cases hclaimed : !s.proxy.health.probing && s.proxy.requestProbe.health.probing with
  | true => simp only [ask, hclaimed, if_true]
  | false => simp only [ask, hclaimed, Bool.false_eq_true, if_false]

theorem Step.stopped (h : Step s e s') (hstopped : s.proxy.stopped = true) :
    s'.proxy.stopped = true := by
  cases h with
  | ask runtime =>
    rw [ask_eq, if_neg (by simp [hstopped])]
    exact hstopped
  | loop hphase hmove => exact hmove.stopped hstopped
  | _ => rw [proxy_meet, s.proxy.stopped_meet, hstopped, Bool.true_or]

theorem Step.interval (h : Step s e s') :
    s'.proxy.health.interval = s.proxy.health.interval := by
  cases h with
  | ask runtime =>
    rw [ask_eq]
    split <;> rfl
  | loop hphase hmove => exact hmove.interval
  | _ => exact s.proxy.interval_meet nofun

theorem Step.begun_le (h : Step s e s') : s.begun ≤ s'.begun := by
  cases h with
  | ask runtime =>
    rw [ask_eq]
    split
    · exact Nat.le_succ _
    · exact Nat.le_refl _
  | _ => exact Nat.le_refl _

structure Held (s : Probing ω) : Prop where
  begun : ∀ i, s.phase i ≠ none → i < s.begun
  alone : ∀ i j, s.phase i ≠ none → s.phase j ≠ none → i = j
  slot : s.proxy.health.probing = true ↔ ∃ i, s.phase i ≠ none

omit [Network ω] in
theorem Held.start {p : Proxy ω} (h : p.health.probing = false) : Held ⟨p, fun _ => none, 0⟩ where
  begun _ hi := absurd rfl hi
  alone _ _ hi := absurd rfl hi
  slot := by simp [h]

theorem Held.meet (h : Held s) {e : Incident} (hask : e ≠ .ask) (hleave : e ≠ .leave) :
    Held (s.meet e) where
  begun := h.begun
  alone := h.alone
  slot := (s.proxy.probing_meet hask hleave) ▸ h.slot

omit [Network ω] in
theorem Held.ask (h : Held s) (runtime : Bool) : Held (s.ask runtime) := by
  rw [ask_eq]
  split
  · next hfree =>
    have hnone (i : Nat) : s.phase i = none := by
      by_contra hi
      rw [h.slot.mpr ⟨i, hi⟩] at hfree
      cases hfree.2
    have halive (i : Nat) : Function.update s.phase s.begun
        (some (if runtime then Phase.ready else .leaving)) i ≠ none ↔ i = s.begun := by
      by_cases hi : i = s.begun
      · simp [hi]
      · simp [hi, hnone]
    constructor
    case begun => exact fun i hi => Nat.lt_succ_of_le (Nat.le_of_eq ((halive i).mp hi))
    case alone => exact fun i j hi hj => ((halive i).mp hi).trans ((halive j).mp hj).symm
    case slot => exact ⟨fun _ => ⟨s.begun, (halive _).mpr rfl⟩, fun _ => rfl⟩
  · exact h

theorem Held.loop (h : Held s) {phase : Phase} {deed : Deed} {next : Option Phase}
    {p' : Proxy ω} (hphase : s.phase i = some phase) (hmove : Move s.proxy phase deed next p') :
    Held ⟨p', Function.update s.phase i next, s.begun⟩ := by
  -- the loop that moves has the slot, so that no other has a phase
  have hi : s.phase i ≠ none := by simp [hphase]
  have hheld : s.proxy.health.probing = true := h.slot.mpr ⟨i, hi⟩
  have halive (j : Nat) : Function.update s.phase i next j ≠ none ↔ j = i ∧ next ≠ none := by
    by_cases hj : j = i
    · simp [hj]
    · have hnone : s.phase j = none := by
        by_contra hne
        exact hj (h.alone j i hne hi)
      simp [hj, hnone]
  constructor
  case begun => exact fun j hj => ((halive j).mp hj).1 ▸ h.begun i hi
  case alone => exact fun j k hj hk => ((halive j).mp hj).1.trans ((halive k).mp hk).1.symm
  case slot =>
    rw [hmove.probing, hheld, Bool.true_and, Option.isSome_iff_ne_none]
    exact ⟨fun hnext => ⟨i, (halive i).mpr ⟨rfl, hnext⟩⟩, fun ⟨j, hj⟩ => ((halive j).mp hj).2⟩

theorem Held.step (h : Held s) (hstep : Step s e s') : Held s' := by
  cases hstep with
  | ask runtime => exact h.ask runtime
  | loop hphase hmove => exact h.loop hphase hmove
  | _ => exact h.meet nofun nofun

theorem Held.run (h : Held s) (hrun : Run s events s') : Held s' := by
  induction hrun with
  | nil => exact h
  | cons hstep _ ih => exact ih (h.step hstep)

/-! ### Ends -/

theorem own_cons (i : Nat) (e : Event) (events : List Event) :
    own i (e :: events) = (e.own? i).toList ++ own i events := by
  rw [own, List.filterMap_cons]
  cases e.own? i <;> rfl

theorem Step.phase_other (h : Step s e s') (hi : i < s.begun) (hother : e.own? i = none) :
    s'.phase i = s.phase i := by
  cases h with
  | ask runtime =>
    rw [ask_eq]
    split
    · exact Function.update_of_ne (Nat.ne_of_lt hi) ..
    · rfl
  | @loop j phase deed next proxy hphase hmove =>
    have hj : i ≠ j := by
      rintro rfl
      simp [Event.own?] at hother
    exact Function.update_of_ne hj ..
  | _ => rfl

theorem own?_eq_some {deed : Deed} (h : e.own? i = some deed) : e = .loop i deed := by
  cases e with
  | loop j d =>
    simp only [Event.own?] at h
    split at h
    · next hj => rw [hj, Option.some.inj h]
    · cases h
  | _ => cases h

theorem Step.move {deed : Deed} (h : Step s (.loop i deed) s') :
    ∃ phase, s.phase i = some phase ∧ Move s.proxy phase deed (s'.phase i) s'.proxy := by
  cases h with
  | @loop _ phase _ next proxy hphase hmove =>
    refine ⟨phase, hphase, ?_⟩
    simpa only [Function.update_self] using hmove

theorem Step.of_stop {now : Instant} (h : Step s (.stop now) s') : s' = s.meet (.shut now) := by
  cases h with
  | stop => rfl

theorem Run.ended (h : Run s events s') (hi : i < s.begun) (hended : s.phase i = none) :
    own i events = [] ∧ s'.phase i = none := by
  induction h with
  | nil => exact ⟨rfl, hended⟩
  | @cons s middle s' e events hstep _ ih =>
    cases hown : e.own? i with
    | some deed =>
      obtain rfl := own?_eq_some hown
      obtain ⟨phase, hphase, -⟩ := hstep.move
      simp [hended] at hphase
    | none =>
      have hmiddle := hstep.phase_other hi hown
      obtain ⟨hrest, hlast⟩ := ih (Nat.lt_of_lt_of_le hi hstep.begun_le) (hmiddle.trans hended)
      exact ⟨by rw [own_cons, hown, hrest]; rfl, hlast⟩

theorem Run.leaving (h : Run s events s') (hi : i < s.begun)
    (hleaving : s.phase i = some .leaving) :
    (own i events = [] ∧ s'.phase i = some .leaving) ∨
      (own i events = [.leave] ∧ s'.phase i = none) := by
  induction h with
  | nil => exact .inl ⟨rfl, hleaving⟩
  | @cons s middle s' e events hstep hrun ih =>
    have hbegun := Nat.lt_of_lt_of_le hi hstep.begun_le
    cases hown : e.own? i with
    | some deed =>
      obtain rfl := own?_eq_some hown
      obtain ⟨phase, hphase, hmove⟩ := hstep.move
      obtain rfl : phase = .leaving := Option.some.inj (hphase.symm.trans hleaving)
      obtain ⟨rfl, hended⟩ := hmove.of_leaving
      obtain ⟨hrest, hlast⟩ := hrun.ended hbegun hended
      exact .inr ⟨by rw [own_cons, hown, hrest]; rfl, hlast⟩
    | none =>
      have hmiddle := hstep.phase_other hi hown
      rw [own_cons, hown]
      exact ih hbegun (hmiddle.trans hleaving)

theorem Step.spends (h : Step s e s') (hstopped : s.proxy.stopped = true)
    (hinterval : s.proxy.health.interval ≠ 0) (i : Nat) :
    (e.own? i).toList.countP Deed.isSend + ahead (s'.phase i) ≤ ahead (s.phase i) ∧
      (e.own? i).toList.length + left (s'.phase i) ≤ left (s.phase i) := by
  cases h with
  | ask runtime =>
    rw [ask_eq, if_neg (by simp [hstopped])]
    exact ⟨Nat.le_of_eq (Nat.zero_add _), Nat.le_of_eq (Nat.zero_add _)⟩
  | @loop j phase deed next proxy hphase hmove =>
    by_cases hj : j = i
    · subst hj
      obtain ⟨hahead, hleft⟩ := hmove.spends hstopped hinterval
      simp only [Event.own?, if_true, Option.toList_some, Function.update_self, hphase,
        List.length_singleton]
      exact ⟨hahead, by omega⟩
    · simp [Event.own?, hj, Function.update_of_ne (Ne.symm hj)]
  | _ => exact ⟨Nat.le_of_eq (Nat.zero_add _), Nat.le_of_eq (Nat.zero_add _)⟩

theorem Run.spends (h : Run s events s') (hstopped : s.proxy.stopped = true)
    (hinterval : s.proxy.health.interval ≠ 0) (i : Nat) :
    (own i events).countP Deed.isSend + ahead (s'.phase i) ≤ ahead (s.phase i) ∧
      (own i events).length + left (s'.phase i) ≤ left (s.phase i) := by
  induction h with
  | nil => exact ⟨Nat.le_of_eq (Nat.zero_add _), Nat.le_of_eq (Nat.zero_add _)⟩
  | cons hstep _ ih =>
    obtain ⟨hahead, hleft⟩ := hstep.spends hstopped hinterval i
    obtain ⟨hrestAhead, hrestLeft⟩ := ih (hstep.stopped hstopped) (hstep.interval ▸ hinterval)
    rw [own_cons, List.countP_append, List.length_append]
    omega

theorem Run.begun_of_stopped (h : Run s events s') (hstopped : s.proxy.stopped = true) :
    s'.begun = s.begun ∧ s'.proxy.stopped = true := by
  induction h with
  | nil => exact ⟨rfl, hstopped⟩
  | @cons s middle s' e events hstep _ ih =>
    obtain ⟨hbegun, hlast⟩ := ih (hstep.stopped hstopped)
    refine ⟨hbegun.trans ?_, hlast⟩
    cases hstep with
    | ask runtime => rw [ask_eq, if_neg (by simp [hstopped])]
    | _ => rfl

/-- What becomes of the loops of a stopped resolver. -/
structure Dwindles (s : Probing ω) (events : List Event) (s' : Probing ω) : Prop where
  begun : s'.begun = s.begun
  ended : ∀ i, s.phase i = none → own i events = [] ∧ s'.phase i = none
  sends : ∀ i, (own i events).countP Deed.isSend ≤ 1
  /-- The loop that is there goes on, but not for long, and then the slot is free. -/
  goes : ∀ i, s'.phase i ≠ none → ∃ deed s'', Step s' (.loop i deed) s''
  length : ∀ i, (own i events).length ≤ 5
  free : (∀ i, s'.phase i = none) → s'.proxy.health.probing = false

theorem Held.dwindles (h : Held s) (hinterval : s.proxy.health.interval ≠ 0)
    (hstopped : s.proxy.stopped = true) (hrun : Run s events s') : Dwindles s events s' := by
  obtain ⟨hbegun, hstill⟩ := hrun.begun_of_stopped hstopped
  have hspends := hrun.spends hstopped hinterval
  constructor
  case begun => exact hbegun
  case ended =>
    intro i hi
    have hleft := (hspends i).2
    rw [hi, left] at hleft
    exact ⟨List.eq_nil_of_length_eq_zero (by omega), eq_none_of_left (by omega)⟩
  case sends => exact fun i => Nat.le_trans (Nat.le_of_add_right_le (hspends i).1) (ahead_le _)
  case goes =>
    intro i hi
    obtain ⟨phase, hphase⟩ := Option.ne_none_iff_exists'.mp hi
    obtain ⟨deed, next, p', hmove⟩ := exists_move s'.proxy hstill phase
    exact ⟨deed, _, .loop hphase hmove⟩
  case length => exact fun i => Nat.le_trans (Nat.le_of_add_right_le (hspends i).2) (left_le _)
  case free =>
    intro hnone
    rw [← Bool.not_eq_true, (h.run hrun).slot]
    rintro ⟨i, hi⟩
    exact hi (hnone i)

/-- What holds of a resolver and its probe loops at any time. -/
structure Orderly (s : Probing ω) : Prop where
  alone : ∀ i j, s.phase i ≠ none → s.phase j ≠ none → i = j
  slot : s.proxy.health.probing = true ↔ ∃ i, s.phase i ≠ none
  /-- After a good probe a loop only gives the slot back. -/
  good : ∀ i id result, s.phase i = some (.waiting id) → Proxy.judge id result = .ok () →
    ∀ s' events s'', Step s (.loop i (.hear result)) s' → Run s' events s'' →
      (own i events = [] ∧ s''.phase i = some .leaving) ∨
        (own i events = [.leave] ∧ s''.phase i = none)
  /-- A stop leaves every loop where it is, and from then on they dwindle. -/
  stop : ∀ now s', Step s (.stop now) s' →
    s'.proxy.stopped = true ∧ s'.phase = s.phase ∧ s'.begun = s.begun ∧
      ∀ events s'', Run s' events s'' → Dwindles s' events s''
  stopped : s.proxy.stopped = true → ∀ events s', Run s events s' → Dwindles s events s'

theorem Run.interval (h : Run s events s') :
    s'.proxy.health.interval = s.proxy.health.interval := by
  induction h with
  | nil => rfl
  | cons hstep _ ih => exact ih.trans hstep.interval

theorem Held.orderly (h : Held s) (hinterval : s.proxy.health.interval ≠ 0) : Orderly s where
  alone := h.alone
  slot := h.slot
  good i id result hwaiting hgood s' events s'' hstep hrun := by
    obtain ⟨phase, hphase, hmove⟩ := hstep.move
    obtain rfl : phase = .waiting id := Option.some.inj (hphase.symm.trans hwaiting)
    have hnext := hmove.of_good hgood
    exact hrun.leaving ((h.step hstep).begun i (by simp [hnext])) hnext
  stop now s' hstep := by
    have hheld : Held s' := h.step hstep
    have hlong : s'.proxy.health.interval ≠ 0 := hstep.interval ▸ hinterval
    obtain rfl := hstep.of_stop
    exact ⟨rfl, rfl, rfl, fun events s'' hrun => hheld.dwindles hlong rfl hrun⟩
  stopped hstopped events s' hrun := h.dwindles hinterval hstopped hrun

/-- Workers may ask for probes, loops may go on and the resolver may be stopped in any order: it
has one probe loop at most, and none for long after it was stopped. -/
theorem orderly_of_run {p : Proxy ω} (hfree : p.health.probing = false)
    (hinterval : p.health.interval ≠ 0) (hrun : Run ⟨p, fun _ => none, 0⟩ events s) :
    Orderly s :=
  ((Held.start hfree).run hrun).orderly (hrun.interval ▸ hinterval)

/-- A loop after its first probe failed, when the resolver is stopped. -/
theorem orderly_far :
    Rehearsal.far.health.probing = false ∧ Rehearsal.far.health.interval ≠ 0 ∧
    ∃ s, Run ⟨Rehearsal.far, fun _ => none, 0⟩ [.ask true, .ask true, .loop 0 (.send 7 0),
        .loop 0 (.hear (.error .timeout)), .loop 0 (.look 5), .stop 9] s ∧
      s.proxy.stopped = true ∧ s.phase 0 = some (.pausing 505) ∧ Orderly s := by
  have hfree : Rehearsal.far.health.probing = false := rfl
  have hinterval : Rehearsal.far.health.interval ≠ 0 := by decide
  have hrun : Run ⟨Rehearsal.far, fun _ => none, 0⟩ [.ask true, .ask true, .loop 0 (.send 7 0),
      .loop 0 (.hear (.error .timeout)), .loop 0 (.look 5), .stop 9] _ :=
    .cons (.ask _ true) (.cons (.ask _ true) (.cons (.loop rfl (.send 7 0))
      (.cons (.loop rfl (.bad rfl)) (.cons (.loop rfl (.pause (.early rfl (by decide))))
        (.cons (.stop _ 9) (.nil _))))))
  exact ⟨hfree, hinterval, _, hrun, rfl, rfl, orderly_of_run hfree hinterval hrun⟩

/-- Whatever the loops do, their resolver has a history. -/
theorem Run.exists_history (h : Run s events s') : ∃ history, s'.proxy = s.proxy.after history := by
  induction h with
  | nil s => exact ⟨[], rfl⟩
  | @cons s middle s' e events hstep _ ih =>
    obtain ⟨history, hlast⟩ := ih
    have hone : middle.proxy = s.proxy ∨ ∃ e, middle.proxy = s.proxy.meet e := by
      cases hstep with
      | ask runtime => exact .inr ⟨.ask, proxy_ask runtime s⟩
      | loop hphase hmove => exact hmove.met
      | attempt | charge | stop => exact .inr ⟨_, s.proxy_meet _⟩
    rcases hone with hsame | ⟨e, hmet⟩
    · exact ⟨history, by rw [hlast, hsame]⟩
    · exact ⟨e :: history, by rw [hlast, hmet]; rfl⟩

end Probing

end DnsFanout
