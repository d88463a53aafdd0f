import DnsFanout.Proofs.Streams.Basic

/-! How many idle connections a server may have: no more than are kept for one, however they
were put back, taken out and closed. -/

namespace DnsFanout.Net

namespace Pool

variable {σ : Type}

/-- The pools that come about. -/
inductive Arises : Pool σ → Prop
  | empty (expire : Nat) : Arises { expire }
  | checkin {p : Pool σ} (h : Arises p) (server : SocketAddress) (now : Instant) (stream : σ) :
    Arises (p.checkin server now stream)
  | checkout {p : Pool σ} (h : Arises p) (server : SocketAddress) (now : Instant) :
    Arises (p.checkout server now).2
  | clear {p : Pool σ} (h : Arises p) : Arises p.clear

variable {p p' : Pool σ} {server : SocketAddress} {now : Instant} {stream : σ}

theorem idle_set_self (p : Pool σ) (server : SocketAddress) (connections : List (Idle σ)) :
    (p.set server connections).idle server = connections := if_pos rfl

theorem idle_set_other {s : SocketAddress} (h : s ≠ server) (connections : List (Idle σ)) :
    (p.set server connections).idle s = p.idle s := if_neg h

theorem idle_checkout_suffix (p : Pool σ) (server s : SocketAddress) (now : Instant) :
    (p.checkout server now).2.idle s <:+ p.idle s := by
  by_cases hs : s = server
  · subst hs
    have hrest := List.dropWhile_suffix (fun c => !p.isFresh now c) (l := p.idle s)
    unfold checkout
    split
    · rw [idle_set_self]
      exact List.nil_suffix
    · next c rest hc =>
      rw [idle_set_self]
      exact (List.suffix_cons c rest).trans (hc ▸ hrest)
  · have hother (connections : List (Idle σ)) :
        (p.set server connections).idle s <:+ p.idle s := by
      simp only [idle_set_other hs, List.suffix_refl]
    unfold checkout
    split
    · exact hother []
    · exact hother _

theorem idleCount_checkout_some (h : p.checkout server now = (some stream, p')) :
    p'.idleCount server < p.idleCount server := by
  have hrest := List.dropWhile_suffix (fun c => !p.isFresh now c) (l := p.idle server)
  unfold checkout at h
  split at h
  · cases h
  · next c rest hc =>
    cases h
    have hlength := (hc ▸ hrest).length_le
    rw [idleCount, idle_set_self]
    exact Nat.lt_of_succ_le hlength

theorem idleCount_checkout_none (h : p.checkout server now = (none, p')) :
    p'.idleCount server = 0 := by
  unfold checkout at h
  split at h
  · cases h
    rw [idleCount, idle_set_self, List.length_nil]
  · cases h

theorem checkout_of_idle (h : p.idleCount server = 0) (now : Instant) :
    (p.checkout server now).1 = none := by
  unfold checkout
  rw [List.eq_nil_of_length_eq_zero h]
  rfl

theorem idleCount_checkin_le (p : Pool σ) (server : SocketAddress) (now : Instant) (stream : σ) :
    (p.checkin server now stream).idleCount server ≤ p.idleCount server + 1 := by
  unfold checkin
  split
  · rw [idleCount, idle_set_self]
    exact Nat.le_refl _
  · exact Nat.le_succ _

theorem Arises.idleCount_le (h : p.Arises) (server : SocketAddress) :
    p.idleCount server ≤ capacity := by
  induction h with
  | empty expire => exact Nat.zero_le _
  | @checkin p hp s now stream ih =>
    unfold Pool.checkin
    split
    · next hroom =>
      by_cases hs : server = s
      · subst hs
        rw [idleCount, idle_set_self]
        exact hroom.2
      · rw [idleCount, idle_set_other hs]
        exact ih
    · exact ih
  | @checkout p hp s now ih => exact Nat.le_trans (idle_checkout_suffix p s server now).length_le ih
  | clear hp ih => exact Nat.zero_le _

end Pool

namespace Streams

variable {server : SocketAddress} {expire : Nat}

theorem Move.arises {query : Bytes} {fresh : Nat → Prop} {stage stage' : Stage}
    {pool pool' : Pool Nat} {deed : Option (Nat × Deed)}
    (hmove : Move server query fresh stage pool deed stage' pool') (h : pool.Arises) :
    pool'.Arises := by
  cases hmove with
  | take now hpool | dial now hpool =>
    have harises := h.checkout server now
    rwa [hpool] at harises
  | finish now hreply => exact h.checkin server now _
  | _ => exact h

theorem arises_of_run {queries : Nat → Bytes} {s : State}
    (h : Run server queries (.start expire) s) : s.pool.Arises := by
  induction h with
  | refl => exact .empty expire
  | tail _ hstep ih =>
    cases hstep with
    | clear => exact ih.clear
    | move hmove => exact hmove.arises ih

end Streams

end DnsFanout.Net
