import DnsFanout.Proofs.Streams.Basic

/-! What one exchange did with its stream, told by where it stands. No other exchange comes in. -/

namespace DnsFanout.Net

theorem Fault.failure_ne_closed (server : SocketAddress) (f : Fault) :
    f.failure server ≠ .closedConnection := by
  unfold failure
  split <;> exact nofun

/-- Only a stream that is used again is found closed. -/
theorem Exchange.reused_of_failure {server : SocketAddress} {reused : Bool} {cause : StreamFailure}
    (h : failure server reused cause = .closedConnection) : reused = true := by
  cases cause with
  | timeout => cases h
  | fault cause =>
    rw [failure] at h
    split at h
    · next hreused => exact hreused.1
    · exact absurd h (cause.failure_ne_closed server)

theorem DialFailure.failure_ne_closed (server : SocketAddress) (cause : DialFailure) :
    cause.failure server ≠ .closedConnection := by
  cases cause with
  | connecting cause => exact fun h => nomatch Exchange.reused_of_failure h
  | securing cause => cases cause <;> exact nofun
  | naming name => exact nofun

namespace Streams

def sentTo (entries : List Entry) (n : Nat) : Bytes :=
  (entries.filter (·.stream = n)).flatMap (·.deed.sent)

def gotFrom (entries : List Entry) (n : Nat) : Bytes :=
  (entries.filter (·.stream = n)).flatMap (·.deed.got)

variable {server : SocketAddress} {query : Bytes} {fresh : Nat → Prop} {entries : List Entry}
  {k n : Nat} {reused : Bool} {d : Deed}

theorem sentTo_concat (entries : List Entry) (k n : Nat) (d : Deed) :
    sentTo (entries ++ [⟨k, n, d⟩]) n = sentTo entries n ++ d.sent := by
  simp [sentTo]

theorem gotFrom_concat (entries : List Entry) (k n : Nat) (d : Deed) :
    gotFrom (entries ++ [⟨k, n, d⟩]) n = gotFrom entries n ++ d.got := by
  simp [gotFrom]

/-- All streams that were used come from the pool, and one was. -/
def Reused (entries : List Entry) : Prop :=
  (∃ e ∈ entries, e.deed = .taken) ∧ ∀ e ∈ entries, e.deed ≠ .opened

theorem Reused.concat (h : Reused entries) (hd : d ≠ .opened) :
    Reused (entries ++ [⟨k, n, d⟩]) := by
  obtain ⟨⟨e, he, htaken⟩, hall⟩ := h
  refine ⟨⟨e, List.mem_append_left _ he, htaken⟩, fun e' he' => ?_⟩
  rcases List.mem_append.mp he' with he' | he'
  · exact hall e' he'
  · exact List.mem_singleton.mp he' ▸ hd

/-- An exchange at work has used one stream so far, and has not given it back. -/
structure Working (entries : List Entry) (n : Nat) (reused : Bool) : Prop where
  stream : ∀ e ∈ entries, e.stream = n ∧ e.deed ≠ .kept
  origin : reused = true → Reused entries

theorem Working.concat (h : Working entries n reused) (hkept : d ≠ .kept) (hopened : d ≠ .opened) :
    Working (entries ++ [⟨k, n, d⟩]) n reused where
  stream e he := by
    rcases List.mem_append.mp he with he | he
    · exact h.stream e he
    · exact List.mem_singleton.mp he ▸ ⟨rfl, hkept⟩
  origin hreused := (h.origin hreused).concat hopened

structure Ended (query : Bytes) (entries : List Entry) (result : Option (Except Failure Reply)) :
    Prop where
  closed : result = some (.error .closedConnection) → Reused entries
  /-- A stream is given back after the whole query was written and one whole reply was read. -/
  whole : ∀ e ∈ entries, e.deed = .kept → Frame.encode query = .ok (sentTo entries e.stream) ∧
    ∃ reply, Frame.split? (gotFrom entries e.stream) = some (reply, [])
  answered : ∀ reply, result = some (.ok reply) → ∃ e ∈ entries, e.deed = .kept ∧
    Frame.split? (gotFrom entries e.stream) = some (reply.bytes, [])
  lost : (∀ reply, result ≠ some (.ok reply)) →
    ∀ e ∈ entries, ∃ e' ∈ entries, e'.stream = e.stream ∧ e'.deed = .lost

def Tale (query : Bytes) (entries : List Entry) : Stage → Prop
  | .ready | .dialing => entries = []
  | .writing n reused sent =>
    Working entries n reused ∧ sentTo entries n = sent ∧ gotFrom entries n = []
  | .reading n reused got =>
    Working entries n reused ∧ Frame.encode query = .ok (sentTo entries n) ∧
      gotFrom entries n = got
  | .done result => Ended query entries result

theorem Tale.working {stage : Stage} (h : Tale query entries stage)
    (hheld : stage.held? = some (n, reused)) : Working entries n reused := by
  cases stage with
  | writing => cases hheld; exact h.1
  | reading => cases hheld; exact h.1
  | _ => cases hheld

theorem ended_nil {result : Option (Except Failure Reply)}
    (hclosed : result ≠ some (.error .closedConnection))
    (hanswer : ∀ reply, result ≠ some (.ok reply)) : Ended query [] result where
  closed h := absurd h hclosed
  whole _ := nofun
  answered reply h := absurd h (hanswer reply)
  lost _ _ := nofun

theorem Working.ended_lost (h : Working entries n reused)
    {result : Option (Except Failure Reply)}
    (hclosed : result = some (.error .closedConnection) → reused = true)
    (hanswer : ∀ reply, result ≠ some (.ok reply)) :
    Ended query (entries ++ [⟨k, n, .lost⟩]) result where
  closed hresult := (h.origin (hclosed hresult)).concat nofun
  whole e he hkept := by
    rcases List.mem_append.mp he with he | he
    · exact absurd hkept (h.stream e he).2
    · rw [List.mem_singleton.mp he] at hkept
      cases hkept
  answered reply hresult := absurd hresult (hanswer reply)
  lost _ e he := by
    refine ⟨⟨k, n, .lost⟩, by simp, ?_, rfl⟩
    rcases List.mem_append.mp he with he | he
    · exact (h.stream e he).1.symm
    · rw [List.mem_singleton.mp he]

theorem Working.ended_kept (h : Working entries n reused) {reply : Bytes}
    (hquery : Frame.encode query = .ok (sentTo entries n))
    (hreply : Frame.split? (gotFrom entries n) = some (reply, [])) :
    Ended query (entries ++ [⟨k, n, .kept⟩]) (some (.ok ⟨reply, reused⟩)) where
  closed := nofun
  whole e he hkept := by
    rcases List.mem_append.mp he with he | he
    · exact absurd hkept (h.stream e he).2
    · rw [List.mem_singleton.mp he, sentTo_concat, gotFrom_concat]
      exact ⟨by simpa [Deed.sent] using hquery, reply, by simpa [Deed.got] using hreply⟩
  answered answer hanswer := by
    cases hanswer
    refine ⟨⟨k, n, .kept⟩, by simp, rfl, ?_⟩
    rw [gotFrom_concat]
    simpa [Deed.got] using hreply
  lost hnone := absurd rfl (hnone _)

theorem Tale.move {stage stage' : Stage} {pool pool' : Pool Nat} {deed : Option (Nat × Deed)}
    (h : Tale query entries stage) (hmove : Move server query fresh stage pool deed stage' pool') :
    Tale query (entries ++ deed.toList.map fun d => ⟨k, d.1, d.2⟩) stage' := by
  cases hmove with
  | take now hpool =>
    obtain rfl : entries = [] := h
    exact ⟨⟨by simp, fun _ => ⟨by simp, by simp⟩⟩, sentTo_concat [] .., gotFrom_concat [] ..⟩
  | dial now hpool =>
    obtain rfl : entries = [] := h
    rfl
  | connect hfresh =>
    obtain rfl : entries = [] := h
    exact ⟨⟨by simp, nofun⟩, sentTo_concat [] .., gotFrom_concat [] ..⟩
  | refuse cause =>
    obtain rfl : entries = [] := h
    refine ended_nil (fun hclosed => cause.failure_ne_closed server ?_) nofun
    simpa using hclosed
  | write bytes hquery hbytes =>
    obtain ⟨hworking, rfl, hgot⟩ := h
    exact ⟨hworking.concat nofun nofun, sentTo_concat ..,
      (gotFrom_concat ..).trans (by simp [hgot, Deed.got])⟩
  | flush hquery =>
    obtain ⟨hworking, rfl, hgot⟩ := h
    simpa [Tale] using ⟨hworking, hquery, hgot⟩
  | hear bytes hbytes =>
    obtain ⟨hworking, hquery, rfl⟩ := h
    refine ⟨hworking.concat nofun nofun, ?_, gotFrom_concat ..⟩
    refine hquery.trans (congrArg _ ?_)
    exact ((sentTo_concat ..).trans (by simp [Deed.sent])).symm
  | finish now hreply =>
    obtain ⟨hworking, hquery, rfl⟩ := h
    exact hworking.ended_kept hquery hreply
  | fail cause hheld =>
    refine (h.working hheld).ended_lost (fun hclosed => ?_) nofun
    exact Exchange.reused_of_failure (Except.error.inj (Option.some.inj hclosed))
  | drop hheld => exact (h.working hheld).ended_lost nofun nofun
  | leave hstage =>
    obtain rfl : entries = [] := by
      rcases hstage with rfl | rfl
      · exact h
      · exact h
    exact ended_nil nofun nofun

theorem tale_of_run {queries : Nat → Bytes} {expire : Nat} {s : State}
    (h : Run server queries (.start expire) s) (k : Nat) :
    Tale (queries k) (s.deeds k) (s.stage k) := by
  induction h with
  | refl => rfl
  | tail _ hstep ih =>
    cases hstep with
    | clear => exact ih
    | @move j deed stage pool hmove =>
      by_cases hk : k = j
      · subst hk
        rw [State.deeds_after, State.stage_after]
        exact ih.move hmove
      · rw [State.deeds_after_other _ _ _ _ hk, State.stage_after_other _ _ _ _ hk]
        exact ih

end Streams

end DnsFanout.Net
