import DnsFanout.Proofs.PoolCalls
import Mathlib.Data.List.Forall2
import Mathlib.Order.Bounds.Defs
import Mathlib.Order.Monotone.Defs
import Mathlib.Order.Nat

/-! What a pool does in the course of time. Every connection is marked with the number of the call
that puts it back, so that what comes out tells which one it is; the marks change nothing. -/

namespace DnsFanout

namespace Net

/-- What is asked of a pool, call after call, on a clock that does not go back. What comes up to
a call does not depend on the later ones. -/
structure History (σ : Type) where
  call : Nat → Pool.Call σ
  now : Nat → Instant
  monotone : Monotone now

namespace History

variable {σ : Type}

/-- The pool before call `n`. -/
def pool (h : History σ) (expire : Nat) : Nat → Pool σ
  | 0 => { expire }
  | n + 1 => ((h.pool expire n).answer (h.now n) (h.call n)).2

/-- What call `n` hands out. -/
def given (h : History σ) (expire n : Nat) : Option σ :=
  ((h.pool expire n).answer (h.now n) (h.call n)).1

/-- The same calls, with every connection marked by the number of the call that puts it back. -/
def marked (h : History σ) : History (σ × Nat) where
  call n := (h.call n).map fun stream => (stream, n)
  now := h.now
  monotone := h.monotone

/-- The call that put back what call `n` hands out. -/
def source? (h : History σ) (expire n : Nat) : Option Nat := (h.marked.given expire n).map Prod.snd

/-- Call `j` puts a connection to the server into the pool. -/
structure Keeps (h : History σ) (expire : Nat) (server : SocketAddress) (j : Nat) : Prop where
  call : ∃ stream, h.call j = .checkin server stream
  lasts : expire ≠ 0
  room : (h.pool expire j).idleCount server < 2

/-- With call `k` a connection to the server that call `j` put back ends to be idle: it is handed
out, or all that there are go. -/
def Ends (h : History σ) (expire : Nat) (server : SocketAddress) (j k : Nat) : Prop :=
  h.call k = .clear ∨
    h.call k = .checkout server ∧ (h.given expire k = none ∨ h.source? expire k = some j)

/-- The connection to the server that call `j` put back is idle before call `n`. -/
structure IsIdle (h : History σ) (expire : Nat) (server : SocketAddress) (n j : Nat) : Prop where
  lt : j < n
  keeps : h.Keeps expire server j
  stays : ∀ k, j < k → k < n → ¬ h.Ends expire server j k

variable {h : History σ} {expire n j : Nat} {server : SocketAddress}

theorem arises_pool (h : History σ) (expire n : Nat) : (h.pool expire n).Arises := by
  induction n with
  | zero => exact .empty expire
  | succ n ih => exact ih.answer (h.now n) (h.call n)

theorem expire_pool (h : History σ) (expire n : Nat) : (h.pool expire n).expire = expire := by
  induction n with
  | zero => rfl
  | succ n ih => exact (Pool.expire_answer _ (h.now n) (h.call n)).trans ih

theorem unmark_call (h : History σ) (n : Nat) : (h.marked.call n).map Prod.fst = h.call n := by
  simp only [marked]
  cases h.call n <;> rfl

theorem unmark_pool (h : History σ) (expire n : Nat) :
    (h.marked.pool expire n).map Prod.fst = h.pool expire n := by
  induction n with
  | zero => rfl
  | succ n ih =>
    have hanswer := Pool.answer_map Prod.fst (h.marked.pool expire n) (h.now n) (h.marked.call n)
    rw [ih, unmark_call] at hanswer
    exact (congrArg Prod.snd hanswer).symm

theorem unmark_given (h : History σ) (expire n : Nat) :
    (h.marked.given expire n).map Prod.fst = h.given expire n := by
  have hanswer := Pool.answer_map Prod.fst (h.marked.pool expire n) (h.now n) (h.marked.call n)
  rw [unmark_pool, unmark_call] at hanswer
  exact (congrArg Prod.fst hanswer).symm

theorem idle_pool (h : History σ) (expire n : Nat) (server : SocketAddress) :
    (h.pool expire n).idle server =
      ((h.marked.pool expire n).idle server).map fun c => ⟨c.stream.1, c.since⟩ := by
  rw [← unmark_pool h]
  rfl

theorem idleCount_marked (h : History σ) (expire n : Nat) (server : SocketAddress) :
    (h.marked.pool expire n).idleCount server = (h.pool expire n).idleCount server := by
  rw [← unmark_pool h, Pool.idleCount_map]

theorem server?_marked (h : History σ) (n : Nat) :
    (h.marked.call n).server? = (h.call n).server? := by
  simp only [marked]
  cases h.call n <;> rfl

theorem idle_pool_of_other {s : SocketAddress} (hserver : (h.call n).server? = some server)
    (hs : s ≠ server) : (h.pool expire (n + 1)).idle s = (h.pool expire n).idle s :=
  Pool.idle_answer_other hserver hs _ _

theorem idle_pool_of_clear (hcall : h.call n = .clear) (server : SocketAddress) :
    (h.pool expire (n + 1)).idle server = [] := by
  rw [pool, hcall]
  rfl

theorem idle_pool_of_checkin {stream : σ} (hcall : h.call n = .checkin server stream) :
    (h.pool expire (n + 1)).idle server =
      if expire = 0 ∨ (h.pool expire n).idleCount server = 2 then (h.pool expire n).idle server
      else ⟨stream, h.now n⟩ :: (h.pool expire n).idle server := by
  have hcount : (h.pool expire n).idleCount server ≤ 2 :=
    (arises_pool h expire n).idleCount_le server
  have hroom : (h.pool expire n).expire ≠ 0 ∧
      ((h.pool expire n).idle server).length < Pool.capacity ↔
      ¬ (expire = 0 ∨ (h.pool expire n).idleCount server = 2) := by
    rw [expire_pool]
    unfold Pool.idleCount at hcount ⊢
    unfold Pool.capacity
    omega
  simp only [pool, hcall, Pool.answer, Pool.checkin]
  by_cases hrefused : expire = 0 ∨ (h.pool expire n).idleCount server = 2
  · rw [if_pos hrefused, if_neg fun hkept => hroom.mp hkept hrefused]
  · rw [if_neg hrefused, if_pos (hroom.mpr hrefused), Pool.idle_set_self]

theorem isIdle_succ : h.IsIdle expire server (n + 1) j ↔
    h.IsIdle expire server n j ∧ ¬ h.Ends expire server j n ∨
      j = n ∧ h.Keeps expire server n := by
  constructor
  · rintro ⟨hlt, hkeeps, hstays⟩
    rcases Nat.lt_succ_iff_lt_or_eq.mp hlt with hlt | rfl
    · exact .inl ⟨⟨hlt, hkeeps, fun k hjk hk => hstays k hjk (Nat.lt_succ_of_lt hk)⟩,
        hstays n hlt (Nat.lt_succ_self n)⟩
    · exact .inr ⟨rfl, hkeeps⟩
  · rintro (⟨⟨hlt, hkeeps, hstays⟩, hends⟩ | ⟨rfl, hkeeps⟩)
    · refine ⟨Nat.lt_succ_of_lt hlt, hkeeps, fun k hjk hk => ?_⟩
      rcases Nat.lt_succ_iff_lt_or_eq.mp hk with hk | rfl
      · exact hstays k hjk hk
      · exact hends
    · exact ⟨Nat.lt_succ_self j, hkeeps, fun k hjk hk => absurd hjk (by omega)⟩

theorem not_keeps (hcall : ∀ stream, h.call n ≠ .checkin server stream) :
    ¬ h.Keeps expire server n := fun ⟨⟨stream, hcheckin⟩, _, _⟩ => hcall stream hcheckin

/-- The marked connections are those that are idle before call `n`, the one put back last in
front. -/
structure Lists (h : History σ) (expire : Nat) (server : SocketAddress) (n : Nat)
    (connections : List (Idle (σ × Nat))) : Prop where
  latest_first : connections.Pairwise fun newer older => older.stream.2 < newer.stream.2
  mem_iff : ∀ c, c ∈ connections ↔ h.IsIdle expire server n c.stream.2 ∧
    h.call c.stream.2 = .checkin server c.stream.1 ∧ c.since = h.now c.stream.2

namespace Lists

variable {connections rest : List (Idle (σ × Nat))} {c : Idle (σ × Nat)}

theorem sorted (hlists : h.Lists expire server n connections) :
    connections.Pairwise fun newer older => older.since ≤ newer.since := by
  refine hlists.latest_first.imp_of_mem fun {newer older} hnewer holder hlt => ?_
  rw [((hlists.mem_iff newer).mp hnewer).2.2, ((hlists.mem_iff older).mp holder).2.2]
  exact h.monotone (Nat.le_of_lt hlt)

theorem exists_mem (hlists : h.Lists expire server n connections)
    (hidle : h.IsIdle expire server n j) : ∃ c ∈ connections, c.stream.2 = j := by
  obtain ⟨stream, hcall⟩ := hidle.keeps.call
  exact ⟨⟨(stream, j), h.now j⟩, (hlists.mem_iff _).mpr ⟨hidle, hcall, rfl⟩, rfl⟩

theorem isGreatest_iff (hlists : h.Lists expire server n connections) :
    IsGreatest {i | h.IsIdle expire server n i} j ↔ ∃ c ∈ connections.head?, c.stream.2 = j := by
  have hlatest : ∀ c ∈ connections.head?,
      IsGreatest {i | h.IsIdle expire server n i} c.stream.2 := by
    intro c hc
    obtain ⟨rest, rfl⟩ := List.head?_eq_some_iff.mp hc
    refine ⟨((hlists.mem_iff c).mp List.mem_cons_self).1, fun i hi => ?_⟩
    obtain ⟨d, hd, rfl⟩ := hlists.exists_mem hi
    rcases List.mem_cons.mp hd with rfl | hd
    · exact Nat.le_refl _
    · exact Nat.le_of_lt (List.rel_of_pairwise_cons hlists.latest_first hd)
  constructor
  · intro hj
    obtain ⟨d, hd, -⟩ := hlists.exists_mem hj.1
    have hc := List.head?_eq_some_head (List.ne_nil_of_mem hd)
    exact ⟨_, hc, Nat.le_antisymm (hj.2 (hlatest _ hc).1) ((hlatest _ hc).2 hj.1)⟩
  · rintro ⟨c, hc, rfl⟩
    exact hlatest c hc

/-- What neither ends to be idle nor begins to be is listed as before. -/
theorem keep (hlists : h.Lists expire server n connections)
    (hends : ∀ j, ¬ h.Ends expire server j n) (hkeeps : ¬ h.Keeps expire server n) :
    h.Lists expire server (n + 1) connections where
  latest_first := hlists.latest_first
  mem_iff c := by
    simp only [hlists.mem_iff, isIdle_succ, hends, hkeeps, not_false_eq_true, and_true, and_false,
      or_false]

theorem gone (hends : ∀ j, h.Ends expire server j n) (hkeeps : ¬ h.Keeps expire server n) :
    h.Lists expire server (n + 1) [] where
  latest_first := .nil
  mem_iff c := by
    simp only [isIdle_succ, hends, hkeeps, not_true, and_false, or_self, false_and,
      List.not_mem_nil]

theorem push {stream : σ} (hlists : h.Lists expire server n connections)
    (hcall : h.call n = .checkin server stream) (hkeeps : h.Keeps expire server n) :
    h.Lists expire server (n + 1) (⟨(stream, n), h.now n⟩ :: connections) where
  latest_first := by
    refine List.pairwise_cons.mpr ⟨fun d hd => ?_, hlists.latest_first⟩
    exact ((hlists.mem_iff d).mp hd).1.lt
  mem_iff c := by
    have hends : ¬ h.Ends expire server c.stream.2 n := by simp [Ends, hcall]
    rw [List.mem_cons, hlists.mem_iff, isIdle_succ]
    constructor
    · rintro (rfl | ⟨hidle, hc⟩)
      · exact ⟨.inr ⟨rfl, hkeeps⟩, hcall, rfl⟩
      · exact ⟨.inl ⟨hidle, hends⟩, hc⟩
    · rintro ⟨⟨hidle, -⟩ | ⟨hn, -⟩, hc, hsince⟩
      · exact .inr ⟨hidle, hc, hsince⟩
      · obtain ⟨⟨s, i⟩, since⟩ := c
        dsimp only at hn hc hsince
        subst hn hsince
        cases hcall.symm.trans hc
        exact .inl rfl

theorem pop (hlists : h.Lists expire server n (c :: rest))
    (hcall : h.call n = .checkout server) (hmarked : h.marked.given expire n = some c.stream) :
    h.Lists expire server (n + 1) rest where
  latest_first := (List.pairwise_cons.mp hlists.latest_first).2
  mem_iff d := by
    have hgiven : h.given expire n = some c.stream.1 := by
      rw [← unmark_given h, hmarked, Option.map_some]
    have hsource : h.source? expire n = some c.stream.2 := by
      rw [source?, hmarked, Option.map_some]
    have hends : h.Ends expire server d.stream.2 n ↔ d.stream.2 = c.stream.2 := by
      simp [Ends, hcall, hgiven, hsource, eq_comm]
    have hkeeps : ¬ h.Keeps expire server n := not_keeps (by simp [hcall])
    have hmem := hlists.mem_iff d
    rw [isIdle_succ, hends]
    constructor
    · intro hd
      obtain ⟨hidle, hd'⟩ := hmem.mp (List.mem_cons_of_mem c hd)
      have hlt := List.rel_of_pairwise_cons hlists.latest_first hd
      exact ⟨.inl ⟨hidle, Nat.ne_of_lt hlt⟩, hd'⟩
    · rintro ⟨⟨hidle, hne⟩ | ⟨-, hbad⟩, hd⟩
      · rcases List.mem_cons.mp (hmem.mpr ⟨hidle, hd⟩) with rfl | hrest
        · exact absurd rfl hne
        · exact hrest
      · exact absurd hbad hkeeps

end Lists

/-- The connection put back last is handed out, or nothing is and nothing is left. -/
theorem checkout_cases
    (hlists : h.Lists expire server n ((h.marked.pool expire n).idle server))
    (hcall : h.call n = .checkout server) :
    (∃ c rest, (h.marked.pool expire n).idle server = c :: rest ∧
      h.now n - h.now c.stream.2 < expire ∧ h.marked.given expire n = some c.stream ∧
      (h.marked.pool expire (n + 1)).idle server = rest) ∨
    ((∀ c ∈ ((h.marked.pool expire n).idle server).head?,
      expire ≤ h.now n - h.now c.stream.2) ∧ h.marked.given expire n = none ∧
      (h.marked.pool expire (n + 1)).idle server = []) := by
  have hanswer : (h.marked.given expire n, h.marked.pool expire (n + 1)) =
      (h.marked.pool expire n).checkout server (h.now n) := by
    simp only [given, pool, marked, hcall]
    rfl
  rw [Pool.checkout_of_sorted hlists.sorted, expire_pool] at hanswer
  cases hidle : (h.marked.pool expire n).idle server with
  | nil =>
    rw [hidle] at hanswer
    obtain ⟨hgiven, hpool⟩ := Prod.mk.injEq .. ▸ hanswer
    exact .inr ⟨fun _ hc => absurd hc (Option.not_mem_none _), hgiven,
      hpool ▸ Pool.idle_set_self _ _ _⟩
  | cons c rest =>
    rw [hidle] at hanswer hlists
    obtain ⟨-, -, hsince⟩ := (hlists.mem_iff c).mp List.mem_cons_self
    dsimp only at hanswer
    rw [hsince] at hanswer
    split at hanswer
    · next hfresh =>
      obtain ⟨hgiven, hpool⟩ := Prod.mk.injEq .. ▸ hanswer
      exact .inl ⟨c, rest, rfl, hfresh, hgiven, hpool ▸ Pool.idle_set_self _ _ _⟩
    · next hstale =>
      obtain ⟨hgiven, hpool⟩ := Prod.mk.injEq .. ▸ hanswer
      refine .inr ⟨?_, hgiven, hpool ▸ Pool.idle_set_self _ _ _⟩
      rintro d hd
      cases hd
      exact Nat.le_of_not_lt hstale

theorem lists_of_other {a : SocketAddress}
    (hlists : h.Lists expire server n ((h.marked.pool expire n).idle server))
    (hserver : (h.call n).server? = some a) (ha : server ≠ a) :
    h.Lists expire server (n + 1) ((h.marked.pool expire (n + 1)).idle server) := by
  rw [idle_pool_of_other ((server?_marked h n).trans hserver) ha]
  refine hlists.keep ?_ ?_
  · rintro j (hclear | ⟨hcheckout, -⟩)
    · rw [hclear] at hserver
      cases hserver
    · rw [hcheckout] at hserver
      exact ha (Option.some.inj hserver)
  · rintro ⟨⟨stream, hcheckin⟩, -, -⟩
    rw [hcheckin] at hserver
    exact ha (Option.some.inj hserver)

theorem lists_of_checkin {stream : σ}
    (hlists : h.Lists expire server n ((h.marked.pool expire n).idle server))
    (hcall : h.call n = .checkin server stream) :
    h.Lists expire server (n + 1) ((h.marked.pool expire (n + 1)).idle server) := by
  have hmarked : h.marked.call n = .checkin server (stream, n) := by
    simp only [marked, hcall, Pool.Call.map]
  have hcount := (arises_pool h expire n).idleCount_le server
  rw [idle_pool_of_checkin hmarked, idleCount_marked]
  split
  · next hrefused =>
    refine hlists.keep (by simp [Ends, hcall]) fun hkeeps => ?_
    rcases hrefused with hzero | hfull
    · exact hkeeps.lasts hzero
    · exact Nat.ne_of_lt hkeeps.room hfull
  · next hkept =>
    obtain ⟨hlasts, hroom⟩ := not_or.mp hkept
    exact hlists.push hcall ⟨⟨stream, hcall⟩, hlasts, Nat.lt_of_le_of_ne hcount hroom⟩

theorem lists_of_checkout
    (hlists : h.Lists expire server n ((h.marked.pool expire n).idle server))
    (hcall : h.call n = .checkout server) :
    h.Lists expire server (n + 1) ((h.marked.pool expire (n + 1)).idle server) := by
  obtain ⟨c, rest, hidle, -, hgiven, hrest⟩ | ⟨-, hgiven, hrest⟩ := checkout_cases hlists hcall
  · rw [hrest]
    exact (hidle ▸ hlists).pop hcall hgiven
  · have hnone : h.given expire n = none := by
      rw [← unmark_given h, hgiven, Option.map_none]
    rw [hrest]
    exact .gone (fun _ => .inr ⟨hcall, .inl hnone⟩) (not_keeps (by simp [hcall]))

theorem lists_succ (hlists : h.Lists expire server n ((h.marked.pool expire n).idle server)) :
    h.Lists expire server (n + 1) ((h.marked.pool expire (n + 1)).idle server) := by
  cases hcall : h.call n with
  | checkin a stream =>
    by_cases ha : server = a
    · exact lists_of_checkin hlists (ha ▸ hcall)
    · exact lists_of_other hlists (congrArg _ hcall) ha
  | checkout a =>
    by_cases ha : server = a
    · exact lists_of_checkout hlists (ha ▸ hcall)
    · exact lists_of_other hlists (congrArg _ hcall) ha
  | clear =>
    have hmarked : h.marked.call n = .clear := by simp only [marked, hcall, Pool.Call.map]
    rw [idle_pool_of_clear hmarked]
    exact .gone (fun _ => .inl hcall) (not_keeps (by simp [hcall]))

theorem lists_pool (h : History σ) (expire : Nat) (server : SocketAddress) (n : Nat) :
    h.Lists expire server n ((h.marked.pool expire n).idle server) := by
  induction n with
  | zero =>
    refine ⟨.nil, fun c => ⟨fun hc => absurd hc List.not_mem_nil, fun hc => ?_⟩⟩
    exact absurd hc.1.lt (Nat.not_lt_zero _)
  -- The clock matters only to a checkout, where it keeps the list sorted.
  | succ n ih => exact lists_succ ih

/-- A connection is handed out exactly if it is the one put back last among those that are idle
for the server, and has not expired. -/
theorem marked_given_eq_some_iff {m : σ × Nat} : h.marked.given expire n = some m ↔ ∃ server,
    h.call n = .checkout server ∧ h.call m.2 = .checkin server m.1 ∧
      IsGreatest {i | h.IsIdle expire server n i} m.2 ∧ h.now n - h.now m.2 < expire := by
  constructor
  · intro hmarked
    cases hcall : h.call n with
    | checkin | clear =>
      simp only [given, marked, hcall, Pool.Call.map, Pool.answer] at hmarked
      cases hmarked
    | checkout server =>
      have hlists := lists_pool h expire server n
      obtain ⟨c, rest, hidle, hfresh, hc, -⟩ | ⟨-, hnone, -⟩ := checkout_cases hlists hcall
      · obtain rfl : c.stream = m := Option.some.inj (hc.symm.trans hmarked)
        rw [hidle] at hlists
        obtain ⟨-, hcheckin, -⟩ := (hlists.mem_iff c).mp List.mem_cons_self
        exact ⟨server, rfl, hcheckin, hlists.isGreatest_iff.mpr ⟨c, rfl, rfl⟩, hfresh⟩
      · cases hmarked.symm.trans hnone
  · rintro ⟨server, hcall, hcheckin, hj, hfresh⟩
    have hlists := lists_pool h expire server n
    obtain ⟨c, hc, hnumber⟩ := hlists.isGreatest_iff.mp hj
    obtain ⟨-, hcheckin', -⟩ := (hlists.mem_iff c).mp (List.mem_of_head? hc)
    rw [hnumber, hcheckin] at hcheckin'
    obtain rfl : c.stream = m := Prod.ext (Pool.Call.checkin.inj hcheckin').2.symm hnumber
    obtain ⟨d, rest, hidle, -, hd, -⟩ | ⟨hstale, -, -⟩ := checkout_cases hlists hcall
    · rw [hidle] at hc
      cases hc
      exact hd
    · exact absurd hfresh (Nat.not_lt_of_le (hstale c hc))

theorem source?_eq_some_iff : h.source? expire n = some j ↔ ∃ server,
    h.call n = .checkout server ∧ IsGreatest {i | h.IsIdle expire server n i} j ∧
      h.now n - h.now j < expire := by
  constructor
  · intro hsource
    obtain ⟨_, hmarked, rfl⟩ := Option.map_eq_some_iff.mp hsource
    obtain ⟨server, hcall, -, hj⟩ := marked_given_eq_some_iff.mp hmarked
    exact ⟨server, hcall, hj⟩
  · rintro ⟨server, hcall, hj, hfresh⟩
    obtain ⟨stream, hcheckin⟩ := hj.1.keeps.call
    have hmarked : h.marked.given expire n = some (stream, j) :=
      marked_given_eq_some_iff.mpr ⟨server, hcall, hcheckin, hj, hfresh⟩
    rw [source?, hmarked, Option.map_some]

theorem given_eq_some_iff {stream : σ} : h.given expire n = some stream ↔ ∃ server j,
    h.call n = .checkout server ∧ h.call j = .checkin server stream ∧
      h.source? expire n = some j := by
  rw [← unmark_given h]
  constructor
  · intro hgiven
    obtain ⟨m, hmarked, rfl⟩ := Option.map_eq_some_iff.mp hgiven
    obtain ⟨server, hcall, hcheckin, -⟩ := marked_given_eq_some_iff.mp hmarked
    exact ⟨server, m.2, hcall, hcheckin, by rw [source?, hmarked, Option.map_some]⟩
  · rintro ⟨server, j, hcall, hcheckin, hsource⟩
    obtain ⟨server', hcall', hj⟩ := source?_eq_some_iff.mp hsource
    cases hcall.symm.trans hcall'
    have hmarked : h.marked.given expire n = some (stream, j) :=
      marked_given_eq_some_iff.mpr ⟨server, hcall, hcheckin, hj⟩
    rw [hmarked, Option.map_some]

theorem idle_pool_of_given_none (hcall : h.call n = .checkout server)
    (hgiven : h.given expire n = none) : (h.pool expire (n + 1)).idle server = [] := by
  obtain ⟨c, rest, -, -, hc, -⟩ | ⟨-, -, hempty⟩ :=
    checkout_cases (lists_pool h expire server n) hcall
  · rw [← unmark_given h, hc] at hgiven
    cases hgiven
  · rw [← unmark_pool h]
    exact congrArg (List.map _) hempty

/-- A call that hands out a connection ends its being idle, and only an idle one is handed out. -/
theorem source?_inj {m : Nat} (hm : h.source? expire m = some j)
    (hn : h.source? expire n = some j) : m = n := by
  have hlater : ∀ {m n : Nat}, h.source? expire m = some j → h.source? expire n = some j →
      ¬ m < n := by
    intro m n hm hn hlt
    obtain ⟨a, hcall, ⟨hidle, -⟩, -⟩ := source?_eq_some_iff.mp hm
    obtain ⟨b, -, ⟨hidle', -⟩, -⟩ := source?_eq_some_iff.mp hn
    obtain ⟨stream, ha⟩ := hidle.keeps.call
    obtain ⟨stream', hb⟩ := hidle'.keeps.call
    cases ha.symm.trans hb
    exact hidle'.stays m hidle.lt hlt (.inr ⟨hcall, .inr hm⟩)
  rcases Nat.lt_trichotomy m n with hlt | rfl | hlt
  · exact absurd hlt (hlater hm hn)
  · rfl
  · exact absurd hlt (hlater hn hm)

theorem lt_source?_of_clear {m : Nat} (hclear : h.call m = .clear) (hlt : m < n)
    (hsource : h.source? expire n = some j) : m < j := by
  obtain ⟨server, -, ⟨hidle, -⟩, -⟩ := source?_eq_some_iff.mp hsource
  rcases Nat.lt_trichotomy j m with hjm | rfl | hmj
  · exact absurd (.inl hclear) (hidle.stays m hjm hlt)
  · obtain ⟨stream, hcheckin⟩ := hidle.keeps.call
    cases hclear.symm.trans hcheckin
  · exact hmj

/-- What holds of a pool in the course of time. -/
structure Lawful (h : History σ) (expire : Nat) : Prop where
  count_le : ∀ n server, (h.pool expire n).idleCount server ≤ 2
  sorted : ∀ n server, ((h.pool expire n).idle server).Pairwise
    fun newer older => older.since ≤ newer.since
  /-- Those that the pool has are those that are idle, the one put back last in front. -/
  idle : ∀ n server, ∃ js : List Nat, js.Pairwise (· > ·) ∧
    (∀ j, j ∈ js ↔ h.IsIdle expire server n j) ∧
    List.Forall₂ (fun c j => h.call j = .checkin server c.stream ∧ c.since = h.now j)
      ((h.pool expire n).idle server) js
  checkout : ∀ n server, h.call n = .checkout server → ∀ j, h.source? expire n = some j ↔
    IsGreatest {i | h.IsIdle expire server n i} j ∧ h.now n - h.now j < expire
  drained : ∀ n server, h.call n = .checkout server → h.given expire n = none →
    (h.pool expire (n + 1)).idle server = []
  given : ∀ n stream, h.given expire n = some stream ↔ ∃ server j,
    h.call n = .checkout server ∧ h.call j = .checkin server stream ∧
      h.source? expire n = some j
  once : ∀ m n j, h.source? expire m = some j → h.source? expire n = some j → m = n
  checkin : ∀ n server stream, h.call n = .checkin server stream →
    (h.pool expire (n + 1)).idle server =
      if expire = 0 ∨ (h.pool expire n).idleCount server = 2 then (h.pool expire n).idle server
      else ⟨stream, h.now n⟩ :: (h.pool expire n).idle server
  apart : ∀ n server s, (h.call n).server? = some server → s ≠ server →
    (h.pool expire (n + 1)).idle s = (h.pool expire n).idle s
  clear : ∀ m, h.call m = .clear → (∀ server, (h.pool expire (m + 1)).idle server = []) ∧
    ∀ n j, m < n → h.source? expire n = some j → m < j

/-- A server has at most two idle connections, sorted by the time of their check-ins. The latest
is handed out, once and for its own server, or it has expired and all are dropped. -/
theorem lawful (h : History σ) (expire : Nat) : h.Lawful expire where
  count_le n server := (arises_pool h expire n).idleCount_le server
  sorted n server := by
    rw [idle_pool, List.pairwise_map]
    exact (lists_pool h expire server n).sorted
  idle n server := by
    have hlists := lists_pool h expire server n
    refine ⟨((h.marked.pool expire n).idle server).map (·.stream.2), ?_, fun j => ?_, ?_⟩
    · exact List.pairwise_map.mpr hlists.latest_first
    · rw [List.mem_map]
      constructor
      · rintro ⟨c, hc, rfl⟩
        exact ((hlists.mem_iff c).mp hc).1
      · exact hlists.exists_mem
    · rw [idle_pool, List.forall₂_map_left_iff, List.forall₂_map_right_iff, List.forall₂_same]
      exact fun c hc => ((hlists.mem_iff c).mp hc).2
  checkout n server hcall j := by
    rw [source?_eq_some_iff]
    constructor
    · rintro ⟨server', hcall', hj⟩
      cases hcall.symm.trans hcall'
      exact hj
    · exact fun hj => ⟨server, hcall, hj⟩
  drained _ _ := idle_pool_of_given_none
  given _ _ := given_eq_some_iff
  once _ _ _ := source?_inj
  checkin _ _ _ := idle_pool_of_checkin
  apart _ _ _ := idle_pool_of_other
  clear _ hclear := ⟨idle_pool_of_clear hclear, fun _ _ => lt_source?_of_clear hclear⟩

end History

end Net

namespace Rehearsal

open Net

def homeServer : SocketAddress := ⟨.v4 ⟨192, 0, 2, 1⟩, 53⟩

def awayServer : SocketAddress := ⟨.v4 ⟨192, 0, 2, 2⟩, 53⟩

/-- Three connections to one server, of which the last is one too many, and one to another. The
first has expired when it could be used again. -/
def borrowings : History Nat where
  call n :=
    match n with
    | 0 => .checkin homeServer 1
    | 1 => .checkin homeServer 2
    | 2 => .checkin homeServer 3
    | 3 => .checkin awayServer 4
    | 4 | 5 => .checkout homeServer
    | 6 => .checkout awayServer
    | 7 => .checkin homeServer 5
    | 8 => .clear
    | _ => .checkout homeServer
  now n := 2 * n
  monotone := fun _ _ hmn => Nat.mul_le_mul_left 2 hmn

theorem lawful_borrowings :
    borrowings.given 7 4 = some 2 ∧ IsGreatest {j | borrowings.IsIdle 7 homeServer 4 j} 1 ∧
    borrowings.given 7 5 = none ∧ (borrowings.pool 7 6).idle homeServer = [] ∧
    borrowings.given 7 6 = some 4 ∧
    ∀ n j, 8 < n → borrowings.source? 7 n = some j → 8 < j := by
  have hlawful := borrowings.lawful 7
  refine ⟨by decide, ((hlawful.checkout 4 homeServer rfl 1).mp (by decide)).1, by decide,
    hlawful.drained 5 homeServer rfl (by decide), by decide, (hlawful.clear 8 rfl).2⟩

end Rehearsal

end DnsFanout
