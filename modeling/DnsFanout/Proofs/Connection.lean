import DnsFanout.Proofs.Answering
import DnsFanout.Proofs.Framing
import DnsFanout.Rehearsal.Handler

/-! A connection is answered in the order of its queries. The reader stands in front of a
frame whenever it waits, so a query without an answer shifts nothing, and what the stream
cuts off is handed to no handler. -/

namespace DnsFanout

open Net Net.Frame

namespace Responder

variable {η : Type}

/-- The responder as the last of some queries leaves it. -/
def leftBy (r : Responder η) (done : List (Answered η Bytes)) : Responder η :=
  (done.getLast?.map (·.responder)).getD r

theorem leftBy_cons (r : Responder η) (first : Answered η Bytes) (done : List (Answered η Bytes)) :
    leftBy r (first :: done) = leftBy first.responder done := by
  cases done <;> simp [leftBy, List.getLast?_cons]

variable [Handler η] {client : Option SocketAddress} {r : Responder η} {now : Instant}
  {inbound : Inbound} {sent : Bytes}

/-- Queries with their arrivals, handled one after the other, each when it is there and the
one before it is done with. After a query that a handler never ends there is nothing. -/
def handled (client : Option SocketAddress) :
    Responder η → Instant → List (Instant × Bytes) → List (Answered η Bytes)
  | _, _, [] => []
  | r, now, (arrival, query) :: rest =>
    match r.overStream (max now arrival) client query with
    | none => []
    | some done => done :: handled client done.responder done.finished rest

/-- Each query is there before the wait for it has become too long. -/
def Prompt (client : Option SocketAddress) :
    Responder η → Instant → List (Instant × Bytes) → Prop
  | _, _, [] => True
  | r, now, (arrival, query) :: rest =>
    arrival < now + idleLimit ∧ ∀ done, r.overStream (max now arrival) client query = some done →
      Prompt client done.responder done.finished rest

/-- A reply fits in a frame. -/
theorem length_reply_le {query reply : Bytes} {done : Answered η Bytes}
    (h : r.overStream now client query = some done) (hreply : done.reply = some reply) :
    reply.length ≤ maxSize := by
  obtain ⟨answered, -, hdone⟩ := Option.bind_eq_some_iff.mp h
  cases hdone
  obtain ⟨⟨message, limit⟩, -, hencode⟩ := Option.bind_eq_some_iff.mp hreply
  exact Message.length_encode?_le hencode

theorem serve_of_read_error {cause : Fault} (hread : read inbound = .error cause) :
    serve client r now inbound sent = ⟨sent, some r⟩ := by
  rw [serve]
  split
  · rfl
  · next hok =>
    rw [hread] at hok
    cases hok

/-- One turn of a connection: a query that is there in time is handled, its reply is sent in a
frame if it has one, and the rest is served on. -/
theorem serve_of_read {query : Taken} (hread : read inbound = .ok query)
    (htime : query.arrival < now + idleLimit) :
    serve client r now inbound sent =
      match r.overStream (max now query.arrival) client query.bytes with
      | none => ⟨sent, none⟩
      | some done => serve client done.responder done.finished query.rest
          (sent ++ done.reply.toList.flatMap frame) := by
  rw [serve]
  split
  · next herror =>
    rw [hread] at herror
    cases herror
  · next taken htaken =>
    cases hread.symm.trans htaken
    rw [if_neg (Nat.not_le.mpr htime)]
    cases hdone : r.overStream (max now query.arrival) client query.bytes with
    | none => rfl
    | some done =>
      cases hreply : done.reply with
      | none => simp [hreply]
      | some reply =>
        have hsize := Nat.not_lt.mpr (length_reply_le hdone hreply)
        simp [hreply, send_eq, hsize]

/-- What is sent on a connection are the replies in frames, in the order of the queries. The
connection is left when all whole queries are done with. -/
theorem serve_eq (client : Option SocketAddress) (r : Responder η) (now : Instant)
    (inbound : Inbound) (sent : Bytes) (h : Prompt client r now (readAll inbound).messages) :
    serve client r now inbound sent =
      ⟨sent ++ ((handled client r now (readAll inbound).messages).filterMap
          (·.reply)).flatMap frame,
        if (handled client r now (readAll inbound).messages).length =
            (readAll inbound).messages.length then
          some (leftBy r (handled client r now (readAll inbound).messages)) else none⟩ := by
  -- on the frames that the reader takes off, whatever has been sent before
  fun_induction readAll inbound generalizing r now sent with
  | case1 inbound cause hread =>
    rw [serve_of_read_error hread]
    simp [handled, leftBy]
  | case2 inbound query hread more ih =>
    obtain ⟨htime, hrest⟩ := h
    rw [serve_of_read hread htime]
    cases hdone : r.overStream (max now query.arrival) client query.bytes with
    | none => simp [handled, hdone]
    | some done =>
      refine (ih done.responder done.finished _ (hrest done hdone)).trans ?_
      simp only [handled, hdone, leftBy_cons, List.length_cons, Nat.add_right_cancel_iff]
      cases hreply : done.reply <;> simp [hreply, more]

/-- Nothing that a client sends in time is lost. Its octets, in any pieces, are whole queries
and perhaps the beginning of one; it is sent the reply of each query that has one, in order,
each in a frame, and nothing else. A query without a reply does not end the connection; what
is cut off has no reply, reaches no handler and ends it. -/
theorem serve_in_order (client : Option SocketAddress) (r : Responder η) (now : Instant)
    (inbound : Inbound) (sent : Bytes) (h : Prompt client r now (readAll inbound).messages) :
    ∃ (queries : List (Instant × Bytes)) (cut : Bytes),
      (∀ q ∈ queries, q.2.length ≤ maxSize) ∧ Incomplete cut ∧
      inbound.octets = queries.flatMap (fun q => frame q.2) ++ cut ∧
      (readAll inbound).messages = queries ∧
      (serve client r now inbound sent).sent =
        sent ++ ((handled client r now queries).filterMap (·.reply)).flatMap frame ∧
      (serve client r now inbound sent).responder =
        if (handled client r now queries).length = queries.length then
          some (leftBy r (handled client r now queries)) else none := by
  obtain ⟨hmessages, -⟩ := readAll_eq inbound
  obtain ⟨cut, hcut, hoctets, hlengths⟩ := exists_cut inbound.octets
  rw [← hmessages] at hoctets hlengths
  refine ⟨(readAll inbound).messages, cut, fun q hq => hlengths _ (List.mem_map_of_mem hq), hcut,
    ?_, rfl, ?_, ?_⟩
  · rw [List.flatMap_map] at hoctets
    exact hoctets
  · rw [serve_eq client r now inbound sent h]
  · rw [serve_eq client r now inbound sent h]

end Responder

namespace Rehearsal

/-- A handler that writes nothing, so that a query fails. -/
def silent : Responder Handler := ⟨.silent ResponseCode.noError, 5000⟩

/-- An empty query, one that cannot be read, one for the root, and half of a length. -/
def talk : Inbound :=
  [(0, [0]), (3, [0, 0, 2, 0, 7]), (9000, [0]), (9500, 17 :: rootOctets), (9600, [0])]

theorem serve_talk :
    let unread : Bytes := [0, 7, 128, 1, 0, 0, 0, 0, 0, 0, 0, 0]
    let failed : Bytes := [0, 7, 129, 130, 0, 1, 0, 0, 0, 0, 0, 0, 0, 0, 2, 0, 1]
    Responder.Prompt none silent 0 (readAll talk).messages ∧
    (readAll talk).messages = [(3, []), (3, [0, 7]), (9500, rootOctets)] ∧
    (Responder.serve none silent 0 talk []).sent = frame unread ++ frame failed ∧
    (Responder.serve none silent 0 talk []).responder = some silent := by
  intro unread failed
  have hmessages : (readAll talk).messages = [(3, []), (3, [0, 7]), (9500, rootOctets)] := by
    decide +kernel
  have hquery := decode?_rootOctets
  have hempty : silent.overStream (max 0 3) none [] = some ⟨none, 3, silent⟩ := rfl
  have hunread : silent.overStream (max 3 3) none [0, 7] = some ⟨some unread, 3, silent⟩ := rfl
  have hroot : silent.overStream (max 3 9500) none rootOctets =
      some ⟨some failed, 9500, silent⟩ := by
    simp only [Responder.overStream, Responder.answer, hquery]
    rfl
  have hprompt : Responder.Prompt none silent 0 (readAll talk).messages := by
    rw [hmessages]
    refine ⟨by decide, fun done hdone => ?_⟩
    cases hempty.symm.trans hdone
    refine ⟨by decide, fun done hdone => ?_⟩
    cases hunread.symm.trans hdone
    exact ⟨by decide, fun _ _ => trivial⟩
  have hhandled : Responder.handled none silent 0 [(3, []), (3, [0, 7]), (9500, rootOctets)] =
      [⟨none, 3, silent⟩, ⟨some unread, 3, silent⟩, ⟨some failed, 9500, silent⟩] := by
    simp only [Responder.handled, hempty, hunread, hroot]
  obtain ⟨queries, cut, -, -, -, hqueries, hsent, hresponder⟩ :=
    Responder.serve_in_order none silent 0 talk [] hprompt
  obtain rfl := hmessages.symm.trans hqueries
  rw [hhandled] at hsent hresponder
  exact ⟨hprompt, hmessages, hsent, hresponder⟩

end Rehearsal

end DnsFanout
