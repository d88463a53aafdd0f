import DnsFanout.Proofs.Pool
import Mathlib.Data.List.TakeWhile

/-! The calls of a pool, and what one of them does. A pool does not look into the connections that
it keeps, and a call for one server leaves the others alone. -/

namespace DnsFanout.Net

namespace Pool

variable {σ τ : Type}

/-- What is asked of a pool. -/
inductive Call (σ : Type)
  | checkin (server : SocketAddress) (stream : σ)
  | checkout (server : SocketAddress)
  | clear

def Call.map (f : σ → τ) : Call σ → Call τ
  | .checkin server stream => .checkin server (f stream)
  | .checkout server => .checkout server
  | .clear => .clear

/-- The server that a call is about, unless it is about all of them. -/
def Call.server? : Call σ → Option SocketAddress
  | .checkin server _ | .checkout server => some server
  | .clear => none

/-- The connection that is handed out, and the pool afterwards. -/
def answer (p : Pool σ) (now : Instant) : Call σ → Option σ × Pool σ
  | .checkin server stream => (none, p.checkin server now stream)
  | .checkout server => p.checkout server now
  | .clear => (none, p.clear)

def map (f : σ → τ) (p : Pool σ) : Pool τ where
  expire := p.expire
  idle server := (p.idle server).map fun c => ⟨f c.stream, c.since⟩

variable {p : Pool σ} {server : SocketAddress}

theorem map_set (f : σ → τ) (p : Pool σ) (server : SocketAddress) (connections : List (Idle σ)) :
    (p.set server connections).map f =
      (p.map f).set server (connections.map fun c => ⟨f c.stream, c.since⟩) := by
  simp only [map, set, Pool.mk.injEq, true_and]
  funext s
  split <;> rfl

theorem idleCount_map (f : σ → τ) (p : Pool σ) (server : SocketAddress) :
    (p.map f).idleCount server = p.idleCount server := List.length_map _

theorem checkin_map (f : σ → τ) (p : Pool σ) (server : SocketAddress) (now : Instant)
    (stream : σ) : (p.map f).checkin server now (f stream) = (p.checkin server now stream).map f := by
  have hroom := idleCount_map f p server
  unfold idleCount at hroom
  unfold checkin
  rw [hroom, apply_ite (map f), map_set]
  rfl

theorem checkout_map (f : σ → τ) (p : Pool σ) (server : SocketAddress) (now : Instant) :
    (p.map f).checkout server now =
      ((p.checkout server now).1.map f, (p.checkout server now).2.map f) := by
  have hdrop : ((p.map f).idle server).dropWhile (fun c => !(p.map f).isFresh now c) =
      ((p.idle server).dropWhile fun c => !p.isFresh now c).map
        fun c => ⟨f c.stream, c.since⟩ := List.dropWhile_map
  unfold checkout
  rw [hdrop]
  cases (p.idle server).dropWhile fun c => !p.isFresh now c with
  | nil => exact congrArg _ (map_set f p server []).symm
  | cons c rest => exact congrArg _ (map_set f p server rest).symm

theorem answer_map (f : σ → τ) (p : Pool σ) (now : Instant) (call : Call σ) :
    (p.map f).answer now (call.map f) =
      ((p.answer now call).1.map f, (p.answer now call).2.map f) := by
  cases call with
  | checkin server stream => exact congrArg _ (checkin_map f p server now stream)
  | checkout server => exact checkout_map f p server now
  | clear => rfl

theorem Arises.answer (h : p.Arises) (now : Instant) (call : Call σ) :
    (p.answer now call).2.Arises := by
  cases call with
  | checkin server stream => exact h.checkin server now stream
  | checkout server => exact h.checkout server now
  | clear => exact h.clear

theorem expire_answer (p : Pool σ) (now : Instant) (call : Call σ) :
    (p.answer now call).2.expire = p.expire := by
  cases call with
  | checkin server stream =>
    simp only [answer, checkin]
    split <;> rfl
  | checkout server =>
    simp only [answer, checkout]
    split <;> rfl
  | clear => rfl

theorem idle_answer_other {call : Call σ} {s : SocketAddress} (hcall : call.server? = some server)
    (hs : s ≠ server) (p : Pool σ) (now : Instant) :
    (p.answer now call).2.idle s = p.idle s := by
  cases call with
  | checkin a stream =>
    cases hcall
    simp only [answer, checkin]
    split
    · exact idle_set_other hs _
    · rfl
  | checkout a =>
    cases hcall
    simp only [answer, checkout]
    split
    · exact idle_set_other hs _
    · exact idle_set_other hs _
  | clear => cases hcall

/-- With the newest connection expired the others have expired too, so that the search never
stops among them. -/
theorem checkout_of_sorted
    (h : (p.idle server).Pairwise fun newer older => older.since ≤ newer.since) (now : Instant) :
    p.checkout server now = match p.idle server with
      | [] => (none, p.set server [])
      | c :: rest =>
        if now - c.since < p.expire then (some c.stream, p.set server rest)
        else (none, p.set server []) := by
  cases hidle : p.idle server with
  | nil => simp only [checkout, hidle, List.dropWhile_nil]
  | cons c rest =>
    rw [hidle, List.pairwise_cons] at h
    by_cases hc : now - c.since < p.expire
    · have hfresh : p.isFresh now c = true := decide_eq_true hc
      simp only [checkout, hidle, List.dropWhile_cons, hfresh, Bool.not_true, Bool.false_eq_true,
        if_false, if_pos hc]
    · have hall : ∀ d ∈ c :: rest, (!p.isFresh now d) = true := by
        intro d hd
        have hle : d.since ≤ c.since := by
          rcases List.mem_cons.mp hd with rfl | hd
          · exact Nat.le_refl _
          · exact h.1 d hd
        have hstale : ¬ now - d.since < p.expire :=
          fun hd => hc (Nat.lt_of_le_of_lt (Nat.sub_le_sub_left hle now) hd)
        rw [isFresh, decide_eq_false hstale, Bool.not_false]
      have hnone := List.dropWhile_eq_nil_iff.mpr hall
      simp only [checkout, hidle, hnone, if_neg hc]

end Pool

end DnsFanout.Net
