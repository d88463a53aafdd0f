import DnsFanout.Proofs.Streams.Basic
import Mathlib.Data.List.Chain

/-! Who has a stream: one exchange, or the pool, or nobody. The last entry about a stream tells
which of them. -/

namespace DnsFanout.Net

namespace Pool

variable {p p' : Pool Nat} {server : SocketAddress} {now : Instant} {n : Nat}

@[simp] theorem streams_set (p : Pool Nat) (server : SocketAddress)
    (connections : List (Idle Nat)) :
    (p.set server connections).streams server = connections.map Idle.stream := by
  simp [streams, set]

/-- The pool hands out one of its streams, and keeps those behind it. -/
theorem streams_checkout (h : p.checkout server now = (some n, p')) :
    n :: p'.streams server <:+ p.streams server := by
  have hsuffix := (List.dropWhile_suffix (fun c => !p.isFresh now c) (l := p.idle server)).map
    Idle.stream
  unfold checkout at h
  split at h
  · cases h
  · next c rest hrest =>
    cases h
    rw [hrest] at hsuffix
    rw [streams_set]
    exact hsuffix

theorem streams_checkout_none (h : p.checkout server now = (none, p')) :
    p'.streams server = [] := by
  unfold checkout at h
  split at h
  · cases h
    simp
  · cases h

theorem streams_checkin (p : Pool Nat) (server : SocketAddress) (now : Instant) (n : Nat) :
    (p.checkin server now n).streams server = n :: p.streams server ∨
      (p.checkin server now n).streams server = p.streams server := by
  unfold checkin
  split
  · exact .inl (streams_set ..)
  · exact .inr rfl

@[simp] theorem streams_clear (p : Pool Nat) (server : SocketAddress) :
    p.clear.streams server = [] := rfl

end Pool

namespace Streams

variable {server : SocketAddress} {queries : Nat → Bytes} {s s' : State}

/-- What may be done next with a stream after something was: nothing with one that is lost, and
one that was kept has to be taken. In between one exchange has it for itself. -/
def Follows (e e' : Entry) : Prop :=
  match e.deed with
  | .lost => False
  | .kept => e'.deed = .taken
  | _ => e'.exchange = e.exchange ∧ e'.deed ≠ .opened ∧ e'.deed ≠ .taken

/-- What a step means for the streams: where one was and where it is then. -/
inductive Transfer (server : SocketAddress) (fresh : Nat → Prop) :
    Option Nat → Pool Nat → Option (Nat × Deed) → Option Nat → Pool Nat → Prop
  | take {pool pool' : Pool Nat} {n : Nat}
    (h : n :: pool'.streams server <:+ pool.streams server) :
    Transfer server fresh none pool (some (n, .taken)) (some n) pool'
  | connect {pool : Pool Nat} {n : Nat} (h : fresh n) :
    Transfer server fresh none pool (some (n, .opened)) (some n) pool
  | use {pool : Pool Nat} {n : Nat} {d : Deed}
    (h : d.isLast = false ∧ d ≠ .opened ∧ d ≠ .taken) :
    Transfer server fresh (some n) pool (some (n, d)) (some n) pool
  | finish {pool pool' : Pool Nat} {n : Nat} (h : pool'.streams server = n :: pool.streams server ∨
      pool'.streams server = pool.streams server) :
    Transfer server fresh (some n) pool (some (n, .kept)) none pool'
  | lose {pool : Pool Nat} {n : Nat} :
    Transfer server fresh (some n) pool (some (n, .lost)) none pool
  | quiet {stream : Option Nat} {pool pool' : Pool Nat}
    (h : pool'.streams server <:+ pool.streams server) :
    Transfer server fresh stream pool none stream pool'

theorem Move.transfer {query : Bytes} {fresh : Nat → Prop} {stage stage' : Stage}
    {pool pool' : Pool Nat} {deed : Option (Nat × Deed)}
    (h : Move server query fresh stage pool deed stage' pool') :
    Transfer server fresh stage.stream? pool deed stage'.stream? pool' := by
  cases h with
  | take now h => exact .take (Pool.streams_checkout h)
  | dial now h => exact .quiet (Pool.streams_checkout_none h ▸ List.nil_suffix)
  | connect h => exact .connect h
  | refuse cause => exact .quiet (List.suffix_refl _)
  | write bytes hquery h => exact .use ⟨rfl, nofun, nofun⟩
  | flush hquery => exact .quiet (List.suffix_refl _)
  | hear bytes h => exact .use ⟨rfl, nofun, nofun⟩
  | finish now h => exact .finish (Pool.streams_checkin _ _ _ _)
  | fail cause h =>
    rw [Stage.stream?, h]
    exact .lose
  | drop h =>
    rw [Stage.stream?, h]
    exact .lose
  | leave h =>
    rcases h with rfl | rfl
    · exact .quiet (List.suffix_refl _)
    · exact .quiet (List.suffix_refl _)

/-- A stream is with the exchange that used it last, or in the pool if that exchange kept it. -/
structure Owned (server : SocketAddress) (s : State) : Prop where
  orderly : ∀ n, (s.uses n).IsChain Follows
  held : ∀ k n, (s.stage k).stream? = some n →
    ∃ d, s.last? n = some ⟨k, n, d⟩ ∧ d.isLast = false
  idle : ∀ n ∈ s.pool.streams server, ∃ k, s.last? n = some ⟨k, n, .kept⟩
  nodup : (s.pool.streams server).Nodup

theorem owned_start (server : SocketAddress) (expire : Nat) : Owned server (.start expire) where
  orderly _ := .nil
  held _ _ := nofun
  idle _ := nofun
  nodup := .nil

namespace Owned

theorem mono {pool : Pool Nat} (h : Owned server s)
    (hpool : pool.streams server <:+ s.pool.streams server) : Owned server { s with pool } where
  orderly := h.orderly
  held := h.held
  idle n hn := h.idle n (hpool.subset hn)
  nodup := h.nodup.sublist hpool.sublist

theorem not_idle (h : Owned server s) {k n : Nat} (hk : (s.stage k).stream? = some n) :
    n ∉ s.pool.streams server := by
  intro hn
  obtain ⟨d, hlast, hopen⟩ := h.held k n hk
  obtain ⟨j, hkept⟩ := h.idle n hn
  cases hlast.symm.trans hkept
  cases hopen

theorem alone (h : Owned server s) {j k n : Nat} (hj : (s.stage j).stream? = some n)
    (hk : (s.stage k).stream? = some n) : j = k := by
  obtain ⟨d, hlast, -⟩ := h.held j n hj
  obtain ⟨d', hlast', -⟩ := h.held k n hk
  cases hlast.symm.trans hlast'
  rfl

theorem follows (h : Owned server s) {k n : Nat} {d : Deed} (hk : (s.stage k).stream? = some n)
    (hopened : d ≠ .opened) (htaken : d ≠ .taken) :
    ∀ last, s.last? n = some last → Follows last ⟨k, n, d⟩ := by
  intro last hlast
  obtain ⟨d', hlast', hopen⟩ := h.held k n hk
  cases hlast.symm.trans hlast'
  cases d' with
  | kept => cases hopen
  | lost => cases hopen
  | _ => exact ⟨rfl, hopened, htaken⟩

/-- One more entry about a stream, by an exchange that no other has to give it up to. -/
theorem after {k n : Nat} {d : Deed} {stage : Stage} {pool : Pool Nat} (h : Owned server s)
    (hfollows : ∀ last, s.last? n = some last → Follows last ⟨k, n, d⟩)
    (hothers : ∀ j, (s.stage j).stream? = some n → j = k)
    (hstage : ∀ m, stage.stream? = some m → m = n ∧ d.isLast = false)
    (hidle : ∀ m ∈ pool.streams server, m = n ∧ d = .kept ∨ m ≠ n ∧ m ∈ s.pool.streams server)
    (hnodup : (pool.streams server).Nodup) :
    Owned server (s.after k (some (n, d)) stage pool) where
  orderly m := by
    by_cases hm : n = m
    · subst hm
      rw [State.uses_after_self]
      exact List.isChain_append.mpr ⟨h.orderly n, .singleton _, fun last hlast e he => by
        cases he
        exact hfollows last hlast⟩
    · rw [State.uses_after_other _ _ _ _ hm]
      exact h.orderly m
  held j m hj := by
    by_cases hjk : j = k
    · subst hjk
      rw [State.stage_after] at hj
      obtain ⟨rfl, hopen⟩ := hstage m hj
      exact ⟨d, State.last?_after_self .., hopen⟩
    · rw [State.stage_after_other _ _ _ _ hjk] at hj
      have hm : n ≠ m := by
        rintro rfl
        exact hjk (hothers j hj)
      rw [State.last?_after_other _ _ _ _ hm]
      exact h.held j m hj
  idle m hm := by
    rcases hidle m hm with ⟨rfl, rfl⟩ | ⟨hne, hm⟩
    · exact ⟨k, State.last?_after_self ..⟩
    · rw [State.last?_after_other _ _ _ _ (Ne.symm hne)]
      exact h.idle m hm
  nodup := hnodup

theorem after_none {k : Nat} {stage : Stage} {pool : Pool Nat} (h : Owned server s)
    (hstage : stage.stream? = (s.stage k).stream?)
    (hpool : pool.streams server <:+ s.pool.streams server) :
    Owned server (s.after k none stage pool) where
  orderly n := by
    rw [State.uses_after_none]
    exact h.orderly n
  held j n hj := by
    rw [State.last?_after_none]
    refine h.held j n ?_
    by_cases hjk : j = k
    · rwa [hjk, State.stage_after, hstage, ← hjk] at hj
    · rwa [State.stage_after_other _ _ _ _ hjk] at hj
  idle n hn := by
    rw [State.last?_after_none]
    exact h.idle n (hpool.subset hn)
  nodup := h.nodup.sublist hpool.sublist

theorem step (h : Owned server s) (hstep : Step server queries s s') : Owned server s' := by
  cases hstep with
  | clear => exact h.mono List.nil_suffix
  | @move k deed stage pool hmove =>
    have htransfer := hmove.transfer
    generalize hfrom : (s.stage k).stream? = here at htransfer
    generalize hto : stage.stream? = there at htransfer
    cases htransfer with
    | @take _ _ n htake =>
      -- whoever used an idle stream last kept it, and nobody has it
      have hin : n ∈ s.pool.streams server := htake.subset List.mem_cons_self
      have hnodup := List.nodup_cons.mp (h.nodup.sublist htake.sublist)
      refine h.after ?_ ?_ ?_ ?_ hnodup.2
      · intro last hlast
        obtain ⟨j, hkept⟩ := h.idle n hin
        cases hlast.symm.trans hkept
        rfl
      · exact fun j hj => absurd hin (h.not_idle hj)
      · exact fun m hm => ⟨Option.some.inj (hm.symm.trans hto), rfl⟩
      · exact fun m hm => .inr ⟨fun heq => hnodup.1 (heq ▸ hm),
          htake.subset (List.mem_cons_of_mem n hm)⟩
    | @connect _ n hfresh =>
      -- nothing was done with a new stream, so that it is nowhere
      have hnone : s.last? n = none := by rw [State.last?, hfresh, List.getLast?_nil]
      refine h.after ?_ ?_ ?_ ?_ h.nodup
      · intro last hlast
        cases hnone.symm.trans hlast
      · intro j hj
        obtain ⟨d, hlast, -⟩ := h.held j n hj
        cases hnone.symm.trans hlast
      · exact fun m hm => ⟨Option.some.inj (hm.symm.trans hto), rfl⟩
      · refine fun m hm => .inr ⟨fun heq => ?_, hm⟩
        obtain ⟨j, hkept⟩ := h.idle m hm
        cases hnone.symm.trans (heq ▸ hkept)
    | @use _ n d huse =>
      refine h.after (h.follows hfrom huse.2.1 huse.2.2) (fun j hj => h.alone hj hfrom) ?_ ?_
        h.nodup
      · exact fun m hm => ⟨Option.some.inj (hm.symm.trans hto), huse.1⟩
      · exact fun m hm => .inr ⟨fun heq => h.not_idle hfrom (heq ▸ hm), hm⟩
    | @finish _ _ n hpool =>
      refine h.after (h.follows hfrom (by simp) (by simp)) (fun j hj => h.alone hj hfrom) ?_ ?_ ?_
      · exact fun m hm => by cases hto.symm.trans hm
      · intro m hm
        by_cases hmn : m = n
        · exact .inl ⟨hmn, rfl⟩
        · refine .inr ⟨hmn, ?_⟩
          rcases hpool with heq | heq
          · exact (List.mem_cons.mp (heq ▸ hm)).resolve_left hmn
          · exact heq ▸ hm
      · rcases hpool with heq | heq
        · exact heq ▸ List.nodup_cons.mpr ⟨h.not_idle hfrom, h.nodup⟩
        · exact heq ▸ h.nodup
    | @lose _ n =>
      refine h.after (h.follows hfrom (by simp) (by simp)) (fun j hj => h.alone hj hfrom) ?_ ?_ h.nodup
      · exact fun m hm => by cases hto.symm.trans hm
      · exact fun m hm => .inr ⟨fun heq => h.not_idle hfrom (heq ▸ hm), hm⟩
    | quiet hpool =>
      exact h.after_none (hto.trans hfrom.symm) hpool

end Owned

end Streams

end DnsFanout.Net
