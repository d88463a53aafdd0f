import DnsFanout.Net.Unreachable
import DnsFanout.Proofs.Streams.Completion
import DnsFanout.Proofs.Streams.Ownership
import DnsFanout.Proofs.Streams.Tale

/-! Streams are used again safely, however exchanges overlap, fail and are dropped. -/

namespace DnsFanout.Net.Streams

variable {server : SocketAddress} {queries : Nat → Bytes} {expire : Nat} {s : State}

theorem owned_of_run (h : Run server queries (.start expire) s) : Owned server s := by
  induction h with
  | refl => exact owned_start server expire
  | tail _ hstep ih => exact ih.step hstep

theorem getLast?_of_lost {entries : List Entry} (h : entries.IsChain Follows) {e : Entry}
    (he : e ∈ entries) (hlost : e.deed = .lost) : entries.getLast? = some e := by
  obtain ⟨before, after, rfl⟩ := List.append_of_mem he
  cases after with
  | nil => exact List.getLast?_concat
  | cons next after =>
    have hnext : Follows e next := (List.isChain_append_cons_cons.mp h).2.1
    rw [Follows, hlost] at hnext
    exact hnext.elim

theorem mem_deeds {e : Entry} {k : Nat} : e ∈ s.deeds k ↔ e ∈ s.history ∧ e.exchange = k := by
  simp [State.deeds]

theorem mem_uses {e : Entry} {n : Nat} : e ∈ s.uses n ↔ e ∈ s.history ∧ e.stream = n := by
  simp [State.uses]

theorem Tale.ended_of_kept {query : Bytes} {entries : List Entry} {stage : Stage}
    (h : Tale query entries stage) {e : Entry} (he : e ∈ entries) (hkept : e.deed = .kept) :
    ∃ result, Ended query entries result := by
  cases stage with
  | ready => exact absurd he (by rw [show entries = [] from h]; exact List.not_mem_nil)
  | dialing => exact absurd he (by rw [show entries = [] from h]; exact List.not_mem_nil)
  | writing n reused sent => exact absurd hkept (h.1.stream e he).2
  | reading n reused got => exact absurd hkept (h.1.stream e he).2
  | done result => exact ⟨result, h⟩

structure Safe (server : SocketAddress) (queries : Nat → Bytes) (s : State) : Prop where
  /-- A stream is used by one exchange at a time, and an idle one by none. -/
  alone : ∀ j k n, (s.stage j).stream? = some n → (s.stage k).stream? = some n → j = k
  unused : ∀ n ∈ s.pool.streams server, ∀ k, (s.stage k).stream? ≠ some n
  nodup : (s.pool.streams server).Nodup
  orderly : ∀ n, (s.uses n).IsChain Follows
  /-- The last exchange on an idle stream wrote its whole frame and read one whole frame. -/
  whole : ∀ n ∈ s.pool.streams server, ∃ k reply, s.last? n = some ⟨k, n, .kept⟩ ∧
    Frame.encode (queries k) = .ok (sentTo (s.deeds k) n) ∧
    Frame.split? (gotFrom (s.deeds k) n) = some (reply, [])
  /-- What an exchange answers is what it read. -/
  answered : ∀ k reply, s.stage k = .done (some (.ok reply)) → ∃ n, ⟨k, n, .kept⟩ ∈ s.history ∧
    Frame.split? (gotFrom (s.deeds k) n) = some (reply.bytes, [])
  /-- After an exchange without an answer, its stream is not used any more. -/
  discarded : ∀ k result, s.stage k = .done result → (∀ reply, result ≠ some (.ok reply)) →
    ∀ e ∈ s.deeds k, s.last? e.stream = some ⟨k, e.stream, .lost⟩
  closed : ∀ k, s.stage k = .done (some (.error .closedConnection)) → Reused (s.deeds k)

/-- Every run of any number of exchanges is safe, and the exchange that runs by itself is a part
of such a run. -/
theorem safe_of_run (h : Run server queries (.start expire) s) : Safe server queries s ∧
    ∀ {ω : Type} [StreamNetwork ω] (k timeout : Nat) (stop : Option Instant) (dial : Dial ω)
      (now : Instant) (network : ω), ReadsFrames ω → dial.Fails server → s.stage k = .ready →
      (∀ n t network', dial now network = ((.ok n, t), network') → s.uses n = []) →
      Completes server queries k s
        (Exchange.run s.pool server (queries k) timeout stop dial now network) := by
  have howned := owned_of_run h
  refine ⟨?_, fun k timeout stop dial now network hframes hdial hready hfresh =>
    completes_run queries hframes hready timeout stop hdial now network hfresh⟩
  constructor
  case alone => exact fun j k n hj hk => howned.alone hj hk
  case unused => exact fun n hn k hk => howned.not_idle hk hn
  case nodup => exact howned.nodup
  case orderly => exact howned.orderly
  case whole =>
    intro n hn
    obtain ⟨k, hlast⟩ := howned.idle n hn
    have hkept := mem_uses.mp (List.mem_of_getLast? hlast)
    have hmem := mem_deeds.mpr ⟨hkept.1, rfl⟩
    obtain ⟨result, hended⟩ := (tale_of_run h k).ended_of_kept hmem rfl
    obtain ⟨hquery, reply, hreply⟩ := hended.whole _ hmem rfl
    exact ⟨k, reply, hlast, hquery, hreply⟩
  case answered =>
    intro k reply hover
    have htale := tale_of_run h k
    rw [hover] at htale
    obtain ⟨⟨j, n, d⟩, he, rfl, hreply⟩ := htale.answered reply rfl
    obtain ⟨hmem, rfl⟩ := mem_deeds.mp he
    exact ⟨n, hmem, hreply⟩
  case discarded =>
    intro k result hover hanswer e he
    have htale := tale_of_run h k
    rw [hover] at htale
    obtain ⟨⟨j, n, d⟩, he', rfl, rfl⟩ := htale.lost hanswer e he
    obtain ⟨hmem, rfl⟩ := mem_deeds.mp he'
    exact getLast?_of_lost (howned.orderly e.stream) (mem_uses.mpr ⟨hmem, rfl⟩) rfl
  case closed =>
    intro k hover
    have htale := tale_of_run h k
    rw [hover] at htale
    exact htale.closed rfl

/-- The peer answers one query and closes the stream before the next; then it is out of
reach. -/
theorem safe_of_closing :
    let server : SocketAddress := ⟨.v4 ⟨192, 0, 2, 1⟩, 53⟩
    let queries : Nat → Bytes := fun _ => [7]
    ∃ s, Run server queries (.start 1000) s ∧ Safe server queries s ∧
      s.stage 0 = .done (some (.ok ⟨[9], false⟩)) ∧
      s.stage 1 = .done (some (.error .closedConnection)) ∧ s.last? 0 = some ⟨1, 0, .lost⟩ ∧
      Completes server queries 2 s (Exchange.run s.pool server (queries 2) 2000 none
        (Dial.plain server 2000) 20 Unreachable.mk) := by
  intro server queries
  have hquery : Frame.encode [7] = .ok [0, 1, 7] :=
    congrArg Except.ok (by decide : word16 1 ++ [7] = [0, 1, 7])
  let empty := (State.start 1000).pool.set server []
  let s₁ := (State.start 1000).after 0 none .dialing empty
  let s₂ := s₁.after 0 (some (0, .opened)) (.writing 0 false []) empty
  let s₃ := s₂.after 0 (some (0, .wrote [0, 1, 7])) (.writing 0 false [0, 1, 7]) empty
  let s₄ := s₃.after 0 none (.reading 0 false []) empty
  let s₅ := s₄.after 0 (some (0, .heard [0, 1])) (.reading 0 false [0, 1]) empty
  let s₆ := s₅.after 0 (some (0, .heard [9])) (.reading 0 false [0, 1, 9]) empty
  let idle := empty.checkin server 5 0
  let s₇ := s₆.after 0 (some (0, .kept)) (.done (some (.ok ⟨[9], false⟩))) idle
  let s₈ := s₇.after 1 (some (0, .taken)) (.writing 0 true []) (idle.set server [])
  let s₉ := s₈.after 1 (some (0, .lost))
    (.done (some (.error (Exchange.failure server true (.fault Fault.earlyEnd))))) s₈.pool
  have h₁ : Step server queries (.start 1000) s₁ := .move (.dial 0 rfl)
  have h₂ : Step server queries s₁ s₂ := .move (.connect rfl)
  have h₃ : Step server queries s₂ s₃ := .move (.write [0, 1, 7] hquery (List.prefix_refl _))
  have h₄ : Step server queries s₃ s₄ := .move (.flush hquery)
  have h₅ : Step server queries s₄ s₅ := .move (.hear [0, 1] (by decide))
  have h₆ : Step server queries s₅ s₆ := .move (.hear [9] (by decide))
  have h₇ : Step server queries s₆ s₇ := .move (.finish 5 (by decide))
  have h₈ : Step server queries s₇ s₈ := .move (.take 10 rfl)
  have h₉ : Step server queries s₈ s₉ := .move (.fail (.fault Fault.earlyEnd) rfl)
  have hrun : Run server queries (.start 1000) s₉ :=
    ((((((((Relation.ReflTransGen.single h₁).tail h₂).tail h₃).tail h₄).tail h₅).tail h₆).tail
      h₇).tail h₈).tail h₉
  obtain ⟨hsafe, hcompletes⟩ := safe_of_run hrun
  exact ⟨s₉, hrun, hsafe, rfl, rfl, rfl,
    hcompletes 2 2000 none _ 20 Unreachable.mk nofun (Dial.fails_plain server 2000) rfl nofun⟩

end DnsFanout.Net.Streams
