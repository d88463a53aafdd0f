import DnsFanout.Proofs.Datagrams
import DnsFanout.Proofs.Results
import DnsFanout.Proofs.Wire.RoundTrip
import DnsFanout.Rehearsal.Post

/-! A query over datagrams is answered by the first datagram in time that has its number in
front, whatever else comes. What is read from that datagram has the number too, so a resolver
never gives the reply to another query. -/

namespace DnsFanout

open Net

/-! ### The number of a query -/

namespace Message

theorem leadingWord?_encode {m : Message} {bytes : Bytes} (h : m.encode = .ok bytes) :
    leadingWord? bytes = some m.id := by
  rw [encode_eq_ok, encode?_eq, Option.map_eq_some_iff] at h
  obtain ⟨b, -, rfl⟩ := h
  rw [header, List.append_assoc, leadingWord?_word16]

theorem leadingWord?_decode {bytes : Bytes} {m : Message} (h : decode bytes = .ok m) :
    leadingWord? bytes = some m.id :=
  (readFrom_of_decode? (decode_eq_ok.mp h)).id

end Message

namespace Net.Datagram

/-- The datagram is there when the wait begins, or arrives before it is over. -/
def inTime (now : Instant) (timeout : Nat) (arrival : Instant) : Bool :=
  arrival ≤ now || arrival < now + timeout

theorem inTime_iff {now : Instant} {timeout : Nat} (h : 0 < timeout) (arrival : Instant) :
    inTime now timeout arrival = true ↔ arrival < now + timeout := by
  simp only [inTime, Bool.or_eq_true, decide_eq_true_eq, or_iff_right_iff_imp]
  exact fun hnow => Nat.lt_of_le_of_lt hnow (Nat.lt_add_of_pos_right h)

/-- What comes before a datagram in time is in time. -/
theorem inTime_of_le {now : Instant} {timeout : Nat} {earlier later : Instant}
    (hle : earlier ≤ later) (h : inTime now timeout later = true) :
    inTime now timeout earlier = true := by
  simp only [inTime, Bool.or_eq_true, decide_eq_true_eq] at h ⊢
  exact h.imp (Nat.le_trans hle) (Nat.lt_of_le_of_lt hle)

/-! ### The wait -/

/-- Datagrams as a socket without faults gets them. -/
def undisturbed (datagrams : List (Instant × Bytes)) : List (Instant × Except Fault Bytes) :=
  datagrams.map fun d => (d.1, .ok d.2)

theorem first?_undisturbed (query : Bytes) (datagrams : List (Instant × Bytes)) :
    (first? query (undisturbed datagrams)).map Prod.snd =
      (datagrams.find? (answers query ·.2)).map fun d => (d.1, .ok d.2) := by
  induction datagrams with
  | nil => rfl
  | cons d datagrams ih =>
    rw [List.find?_cons, undisturbed, List.map_cons, first?, settles_ok]
    cases answers query d.2 with
    | true => rfl
    | false =>
      simp only [Bool.false_eq_true, if_false, Option.map_map]
      exact ih

/-- Up to the end of the wait the first datagram that answers is the first of all in time. -/
theorem find?_takeWhile {query : Bytes} {datagrams : List (Instant × Bytes)} {now : Instant}
    {timeout : Nat} (hsorted : datagrams.Pairwise (·.1 ≤ ·.1)) :
    (datagrams.takeWhile (inTime now timeout ·.1)).find? (answers query ·.2) =
      datagrams.find? fun d => inTime now timeout d.1 && answers query d.2 := by
  induction datagrams with
  | nil => rfl
  | cons d datagrams ih =>
    obtain ⟨hlater, hsorted⟩ := List.pairwise_cons.mp hsorted
    cases htime : inTime now timeout d.1 with
    | true => simp [List.find?_cons, htime, ih hsorted]
    | false =>
      have hlate : ∀ later ∈ d :: datagrams, inTime now timeout later.1 = false := by
        refine List.forall_mem_cons.mpr ⟨htime, fun later hmem => Bool.eq_false_iff.mpr fun h => ?_⟩
        exact Bool.eq_false_iff.mp htime (inTime_of_le (hlater later hmem) h)
      have hnone : (d :: datagrams).find? (fun d => inTime now timeout d.1 && answers query d.2) =
          none := List.find?_eq_none.mpr fun later hmem => by simp [hlate later hmem]
      rw [hnone, List.takeWhile_cons, htime]
      rfl

variable {ω : Type} {pool left : Pool Nat} {server : SocketAddress} {query : Bytes}
  {timeout socket : Nat} {stop : Option Instant} {reused : Bool} {now : Instant}
  {network ready asked : ω} {datagrams : List (Instant × Bytes)}

/-- An exchange on a socket that gets some datagrams ends with the first in time that answers,
cut to what is kept of one; without such a datagram it times out. The socket goes back to the
pool after a reply only. -/
def Settled (pool : Pool Nat) (server : SocketAddress) (query : Bytes) (timeout : Nat)
    (reused : Bool) (socket : Nat) (now : Instant) (datagrams : List (Instant × Bytes))
    (done : Exchanged ω) : Prop :=
  match datagrams.find? fun d => inTime now timeout d.1 && answers query d.2 with
  | some (arrival, bytes) =>
    done.result = some (.ok ⟨bytes.take maxSize, reused⟩) ∧ done.finished = max now arrival ∧
      done.pool = pool.checkin server (max now arrival) socket
  | none =>
    done.result = some (.error (.transportTimeout server.text)) ∧ done.finished = now + timeout ∧
      done.pool = pool

variable [DatagramNetwork ω]

theorem settled_await (h : DatagramNetwork.arrivals socket network = undisturbed datagrams)
    (hsorted : datagrams.Pairwise (·.1 ≤ ·.1)) :
    Settled pool server query timeout reused socket now datagrams
      (await pool server query timeout none reused socket now network) := by
  have htimely : (undisturbed datagrams).takeWhile
      (fun x => decide (x.1 ≤ now) || decide (x.1 < now + timeout)) =
      undisturbed (datagrams.takeWhile (inTime now timeout ·.1)) := List.takeWhile_map
  have hfirst := first?_undisturbed query (datagrams.takeWhile (inTime now timeout ·.1))
  rw [find?_takeWhile hsorted] at hfirst
  simp only [Settled, await, h, htimely]
  cases hfind : datagrams.find? fun d => inTime now timeout d.1 && answers query d.2 with
  | none =>
    rw [hfind, Option.map_none, Option.map_eq_none_iff] at hfirst
    rw [hfirst]
    exact ⟨rfl, rfl, rfl⟩
  | some d =>
    rw [hfind, Option.map_some, Option.map_eq_some_iff] at hfirst
    obtain ⟨⟨used, found⟩, hused, rfl⟩ := hfirst
    rw [hused]
    exact ⟨rfl, rfl, rfl⟩

/-- Once the query is sent the exchange is settled by what the socket gets. -/
theorem settled_run (hready : Ready pool server now network reused socket left ready)
    (hsend : DatagramNetwork.send socket now query ready = (.ok (), asked))
    (harrivals : DatagramNetwork.arrivals socket asked = undisturbed datagrams)
    (hsorted : datagrams.Pairwise (·.1 ≤ ·.1)) (timeout : Nat) :
    Settled left server query timeout reused socket now datagrams
      (run pool server query timeout none now network) := by
  rw [hready.run, onSocket, hsend]
  exact settled_await harrivals hsorted

/-! ### Whatever comes -/

/-- An exchange that gives a reply has the number of its query in it, and has put back the socket
that it asked on; any other puts back nothing. -/
def Sound (pool : Pool Nat) (server : SocketAddress) (query : Bytes) (now : Instant)
    (network : ω) (done : Exchanged ω) : Prop :=
  match done.result with
  | some (.ok reply) => answers query reply.bytes = true ∧
    ∃ socket left ready, Ready pool server now network reply.reused socket left ready ∧
      done.pool = left.checkin server done.finished socket
  | _ => done.pool = (pool.checkout server now).2

theorem sound_run (pool : Pool Nat) (server : SocketAddress) (query : Bytes) (timeout : Nat)
    (stop : Option Instant) (now : Instant) (network : ω) :
    Sound pool server query now network (run pool server query timeout stop now network) := by
  have hended := ended_run pool server query timeout stop now network
  generalize run pool server query timeout stop now network = done at hended ⊢
  cases hended with
  | abandoned hstop | failed cause | silent => exact rfl
  | @answered reused socket left ready _ _ _ hready hanswers =>
    exact ⟨hanswers, socket, left, ready, hready, rfl⟩

end Net.Datagram

namespace Proxy

variable {ω : Type} [Network ω] {p : Proxy ω} {server : SocketAddress} {message m : Message}
  {timeout : Nat} {stop : Option Instant} {now t : Instant}

/-- A message that is read from a reply has the number of the query. -/
theorem id_of_exchange (hplain : p.endpoint = .plain server)
    (h : (p.exchange message .datagram timeout stop now).1 = some (.ok m, t)) :
    m.id = message.id := by
  unfold exchange at h
  cases hquery : message.encode with
  | error cause => simp [hquery] at h
  | ok query =>
    have hsound := Datagram.sound_run p.sockets server query timeout stop now p.network
    simp only [hquery, exchangeBytes, hplain, Prod.mk.injEq, Option.map_eq_some_iff] at h
    obtain ⟨result, hresult, hanswer, -⟩ := h
    obtain ⟨reply, rfl, hdecode⟩ := bind_eq_ok.mp hanswer
    simp only [Datagram.Sound, hresult] at hsound
    have hids := (Datagram.answers_iff.mp hsound.1).2
    rw [Message.leadingWord?_decode hdecode, Message.leadingWord?_encode hquery] at hids
    exact Option.some.inj hids

/-- What is asked over datagrams is answered under its own number: queries and probes. -/
structure KeepsId (p : Proxy ω) : Prop where
  attempt : ∀ now scope request preference m t,
    preference.select request.transport = .datagram →
    (p.attempt now scope request preference).1 = some (.answered (.ok m), t) →
    m.id = request.message.id
  probe : ∀ id now m t,
    (p.exchange (Message.probe id) .datagram p.readTimeout none now).1 = some (.ok m, t) →
    m.id = id ∧ judge id (.ok m) = .ok ()

theorem keepsId (hplain : p.endpoint = .plain server) : p.KeepsId where
  attempt now scope request preference m t htransport h := by
    simp only [Proxy.attempt, htransport, Option.map_eq_some_iff] at h
    obtain ⟨⟨result, finished⟩, hdone, hanswer⟩ := h
    cases hanswer
    exact id_of_exchange hplain hdone
  probe id now m t h := by
    have hid : m.id = id := id_of_exchange hplain h
    exact ⟨hid, if_pos hid⟩

/-- A query over datagrams is answered by the first datagram in time that has its number, and
by nothing else that comes. A socket is put back after such a reply only, whatever the network
does. So a plain resolver never gives a reply of another number, since a message and its wire
form have the same. -/
theorem datagram_exchange {pool left : Pool Nat} {query : Bytes} {reused : Bool} {socket : Nat}
    {network ready asked : ω} {datagrams : List (Instant × Bytes)}
    (hready : Datagram.Ready pool server now network reused socket left ready)
    (hsend : DatagramNetwork.send socket now query ready = (.ok (), asked))
    (harrivals : DatagramNetwork.arrivals socket asked = Datagram.undisturbed datagrams)
    (hsorted : datagrams.Pairwise (·.1 ≤ ·.1)) (timeout : Nat) :
    Datagram.Settled left server query timeout reused socket now datagrams
        (Datagram.run pool server query timeout none now network) ∧
      (0 < timeout → ∀ arrival,
        Datagram.inTime now timeout arrival = true ↔ arrival < now + timeout) ∧
      (∀ (pool : Pool Nat) (server : SocketAddress) (query : Bytes) (timeout : Nat)
        (stop : Option Instant) (now : Instant) (network : ω),
        Datagram.Sound pool server query now network
          (Datagram.run pool server query timeout stop now network)) ∧
      (∀ (p : Proxy ω) (server : SocketAddress), p.endpoint = .plain server → p.KeepsId) ∧
      (∀ (m : Message) (bytes : Bytes), m.encode = .ok bytes → leadingWord? bytes = some m.id) ∧
      ∀ (bytes : Bytes) (m : Message), Message.decode bytes = .ok m →
        leadingWord? bytes = some m.id :=
  ⟨Datagram.settled_run hready hsend harrivals hsorted timeout, Datagram.inTime_iff,
    Datagram.sound_run, fun _ _ => keepsId, fun _ _ => Message.leadingWord?_encode,
    fun _ _ => Message.leadingWord?_decode⟩

end Proxy

namespace Rehearsal

/-- One octet, a reply to another query, the reply to query 7, and one more. -/
def post : Post := ⟨[(5, [0]), (40, [0, 8, 128, 0, 0, 0, 0, 0, 0, 0, 0, 0]),
  (60, [0, 7, 128, 0, 0, 0, 0, 0, 0, 0, 0, 0]), (70, [0, 7])]⟩

def postal : Proxy Post := receiving post.mail

theorem datagram_exchange_postal :
    let query : Bytes := [0, 7, 1, 0, 0, 1, 0, 0, 0, 0, 0, 0, 0, 0, 2, 0, 1]
    let done := Datagram.run postal.sockets postOffice query 2000 none 0 post
    done.result = some (.ok ⟨[0, 7, 128, 0, 0, 0, 0, 0, 0, 0, 0, 0], false⟩) ∧
      done.finished = 60 ∧ done.pool.idle postOffice = [⟨3, 60⟩] ∧
      ∃ m t, (postal.exchange (Message.probe 7) .datagram 2000 none 0).1 = some (.ok m, t) ∧
        m.id = 7 := by
  intro query done
  have hready : Datagram.Ready postal.sockets postOffice 0 post false 3
      (postal.sockets.checkout postOffice 0).2 post := .opened rfl rfl
  have hsend : DatagramNetwork.send 3 0 query post = (.ok (), post) := rfl
  have hsorted : post.mail.Pairwise (·.1 ≤ ·.1) := by decide
  obtain ⟨hsettled, -, -, hkeeps, -⟩ := Proxy.datagram_exchange hready hsend rfl hsorted 2000
  obtain ⟨hresult, hfinished, hpool⟩ := hsettled
  refine ⟨hresult, hfinished, by rw [hpool]; rfl, ?_⟩
  obtain ⟨m, t, h⟩ : ∃ m t,
      (postal.exchange (Message.probe 7) .datagram 2000 none 0).1 = some (.ok m, t) := ⟨_, _, rfl⟩
  exact ⟨m, t, h, ((hkeeps postal postOffice rfl).probe 7 0 m t h).1⟩

end Rehearsal

end DnsFanout
