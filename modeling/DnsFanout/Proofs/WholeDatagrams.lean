import DnsFanout.Proofs.DatagramReply
import DnsFanout.Proofs.DatagramSize
import DnsFanout.Proofs.Incident
import DnsFanout.Proofs.Wire.Front

/-! How much of a datagram is received. An exchange has the same room for every reply, whatever
size its query announces; a reply within that room arrives whole, and of a longer one the end is
lost. -/

namespace DnsFanout

open Net

namespace Net.Datagram

variable {ω : Type} [DatagramNetwork ω] {pool left : Pool Nat} {server : SocketAddress}
  {query bytes : Bytes} {timeout socket : Nat} {stop : Option Instant} {reused : Bool}
  {now : Instant} {network ready asked : ω} {reply : Reply}

/-- The datagram replies to the query: of what comes in time on the socket that the exchange asks
on, it is the first that settles the query, and the exchange is not abandoned before. -/
inductive Replies (pool : Pool Nat) (server : SocketAddress) (query : Bytes) (timeout : Nat)
    (stop : Option Instant) (now : Instant) (network : ω) (bytes : Bytes) : Bool → Prop
  | first {reused : Bool} {socket used : Nat} {left : Pool Nat} {ready asked : ω}
    {arrival : Instant} (hready : Ready pool server now network reused socket left ready)
    (hsend : DatagramNetwork.send socket now query ready = (.ok (), asked))
    (hfirst : first? query ((DatagramNetwork.arrivals socket asked).takeWhile
      (inTime now timeout ·.1)) = some (used, arrival, .ok bytes))
    (hopen : stop.any (· ≤ max now arrival) = false) :
    Replies pool server query timeout stop now network bytes reused

theorem Replies.answers (h : Replies pool server query timeout stop now network bytes reused) :
    answers query bytes = true := by
  cases h with
  | first hready hsend hfirst hopen =>
    rw [← settles_ok]
    exact settles_of_first? hfirst

theorem result_await_of_first? {used : Nat} {arrival : Instant}
    (hfirst : first? query ((DatagramNetwork.arrivals socket asked).takeWhile
      (inTime now timeout ·.1)) = some (used, arrival, .ok bytes))
    (hopen : stop.any (· ≤ max now arrival) = false) :
    (await pool server query timeout stop reused socket now asked).result =
      some (.ok ⟨bytes.take maxSize, reused⟩) := by
  have htimely : first? query ((DatagramNetwork.arrivals socket asked).takeWhile
      (fun x => decide (x.1 ≤ now) || decide (x.1 < now + timeout))) =
      some (used, arrival, .ok bytes) := hfirst
  simp only [await, htimely, hopen, Bool.false_eq_true, if_false]

theorem Replies.result (h : Replies pool server query timeout stop now network bytes reused) :
    (run pool server query timeout stop now network).result =
      some (.ok ⟨bytes.take maxSize, reused⟩) := by
  cases h with
  | first hready hsend hfirst hopen =>
    rw [hready.run, onSocket, hsend]
    exact result_await_of_first? hfirst hopen

theorem first?_of_result_await
    (h : (await pool server query timeout stop reused socket now asked).result =
      some (.ok reply)) :
    ∃ used arrival bytes, first? query ((DatagramNetwork.arrivals socket asked).takeWhile
      (inTime now timeout ·.1)) = some (used, arrival, .ok bytes) ∧
      stop.any (· ≤ max now arrival) = false ∧ reply = ⟨bytes.take maxSize, reused⟩ := by
  have htimely : (DatagramNetwork.arrivals socket asked).takeWhile
      (fun x => decide (x.1 ≤ now) || decide (x.1 < now + timeout)) =
      (DatagramNetwork.arrivals socket asked).takeWhile (inTime now timeout ·.1) := rfl
  simp only [await, htimely] at h
  rcases hfirst : first? query ((DatagramNetwork.arrivals socket asked).takeWhile
    (inTime now timeout ·.1)) with _ | ⟨used, arrival, cause | bytes⟩
  · simp only [hfirst] at h
    split at h <;> cases h
  · simp only [hfirst] at h
    split at h <;> cases h
  · simp only [hfirst] at h
    split at h
    · cases h
    · next hopen =>
      cases h
      exact ⟨used, arrival, bytes, rfl, Bool.eq_false_iff.mpr hopen, rfl⟩

theorem exists_replies_onSocket (hready : Ready pool server now network reused socket left ready)
    (h : (onSocket left server query timeout stop reused socket now ready).result =
      some (.ok reply)) :
    ∃ bytes, Replies pool server query timeout stop now network bytes reused ∧
      reply = ⟨bytes.take maxSize, reused⟩ := by
  unfold onSocket at h
  split at h
  · cases h
  · next hsend =>
    obtain ⟨used, arrival, bytes, hfirst, hopen, hreply⟩ := first?_of_result_await h
    exact ⟨bytes, .first hready hsend hfirst hopen, hreply⟩

/-- Whatever an exchange gives is the front of a datagram that replied to its query. -/
theorem exists_replies
    (h : (run pool server query timeout stop now network).result = some (.ok reply)) :
    ∃ bytes reused, Replies pool server query timeout stop now network bytes reused ∧
      reply = ⟨bytes.take maxSize, reused⟩ := by
  unfold run at h
  split at h
  · next hpool =>
    obtain ⟨bytes, hbytes⟩ := exists_replies_onSocket (.pooled hpool) h
    exact ⟨bytes, true, hbytes⟩
  · next hpool =>
    split at h
    · cases h
    · next hopen =>
      obtain ⟨bytes, hbytes⟩ := exists_replies_onSocket (.opened hpool hopen) h
      exact ⟨bytes, false, hbytes⟩

theorem take_maxSize_eq_iff (bytes : Bytes) :
    bytes.take maxSize = bytes ↔ bytes.length ≤ maxSize := List.take_eq_self_iff bytes

end Net.Datagram

namespace Proxy

variable {ω : Type} [Network ω] {p : Proxy ω} {now : Instant} {scope : Scope} {request : Request}
  {preference : Preference} {query bytes : Bytes} {reused : Bool} {reply : Reply}

/-- An attempt over datagrams, and the datagram that replies to it. -/
structure RepliedBy (p : Proxy ω) (now : Instant) (scope : Scope) (request : Request)
    (preference : Preference) (query bytes : Bytes) (reused : Bool) : Prop where
  transport : preference.select request.transport = .datagram
  encoded : request.message.encode = .ok query
  replies : ∃ server, p.endpoint = .plain server ∧
    Datagram.Replies p.sockets server query (scope.bound now p.readTimeout) scope.stop? now
      p.network bytes reused

/-- An attempt over datagrams gets octets, and reads the reply from them. -/
structure Receives (p : Proxy ω) (now : Instant) (scope : Scope) (request : Request)
    (preference : Preference) (query : Bytes) (reply : Reply) : Prop where
  exchange : (p.exchangeBytes query .datagram (scope.bound now p.readTimeout) scope.stop? now).1 =
    some (.ok reply)
  read : ∃ t, (p.attempt now scope request preference).1 =
    some (.answered (Message.decode reply.bytes), t)

theorem receives_of_exchange (htransport : preference.select request.transport = .datagram)
    (hquery : request.message.encode = .ok query)
    (h : (p.exchangeBytes query .datagram (scope.bound now p.readTimeout) scope.stop? now).1 =
      some (.ok reply)) :
    p.Receives now scope request preference query reply := by
  refine ⟨h, ?_⟩
  rcases hdone : p.exchangeBytes query .datagram (scope.bound now p.readTimeout) scope.stop? now
    with ⟨result, t, p'⟩
  rw [hdone] at h
  cases h
  refine ⟨t, ?_⟩
  simp only [attempt, htransport, exchange, hquery, hdone]
  rfl

theorem RepliedBy.receives
    (h : p.RepliedBy now scope request preference query bytes reused) :
    p.Receives now scope request preference query ⟨bytes.take Datagram.maxSize, reused⟩ := by
  obtain ⟨server, hplain, hreplies⟩ := h.replies
  refine receives_of_exchange h.transport h.encoded ?_
  simp only [exchangeBytes, hplain]
  exact hreplies.result

theorem exists_repliedBy {server : SocketAddress} (hplain : p.endpoint = .plain server)
    (htransport : preference.select request.transport = .datagram)
    (hquery : request.message.encode = .ok query)
    (h : (p.exchangeBytes query .datagram (scope.bound now p.readTimeout) scope.stop? now).1 =
      some (.ok reply)) :
    ∃ bytes reused, p.RepliedBy now scope request preference query bytes reused ∧
      reply = ⟨bytes.take Datagram.maxSize, reused⟩ := by
  simp only [exchangeBytes, hplain] at h
  obtain ⟨bytes, reused, hreplies, hreply⟩ := Datagram.exists_replies h
  exact ⟨bytes, reused, ⟨htransport, hquery, server, hplain, hreplies⟩, hreply⟩

end Proxy

/-! ### The size that a query announces -/

namespace Message

/-- Every datagram that replies to the query and is no longer than the query announces is received
whole. -/
def ReceivedWhole (m : Message) : Prop :=
  ∀ {ω : Type} [Network ω] (p : Proxy ω) (now : Instant) (scope : Scope) (request : Request)
    (preference : Preference) (query bytes : Bytes) (reused : Bool), request.message = m →
    p.RepliedBy now scope request preference query bytes reused →
    bytes.length ≤ Responder.limit m →
    p.Receives now scope request preference query ⟨bytes, reused⟩

variable {m : Message} {query : Bytes}

/-- A reply that is longer than there is room for cannot be read from what is left of it. -/
theorem Fills.decode_take {bytes : Bytes} (h : Fills bytes)
    (hlong : Datagram.maxSize < bytes.length) :
    decode (bytes.take Datagram.maxSize) = .error unreadable := by
  rw [decode, h.decode?_take (by decide) hlong]

theorem receivedWhole_of_le (h : Responder.limit m ≤ Datagram.maxSize) : m.ReceivedWhole := by
  intro ω _ p now scope request preference query bytes reused _ hreplied hlength
  have hwhole : bytes.take Datagram.maxSize = bytes :=
    (Datagram.take_maxSize_eq_iff bytes).mpr (Nat.le_trans hlength h)
  have hreceives := hreplied.receives
  rwa [hwhole] at hreceives

end Message

namespace Rehearsal

/-- A resolver that is asked over datagrams, and gets the one as soon as it asks. -/
def answeredBy (bytes : Bytes) : Proxy Post := receiving [(0, bytes)]

theorem repliedBy {m : Message} {query bytes : Bytes} (hquery : m.encode = .ok query)
    (hanswers : Datagram.answers query bytes = true) :
    (answeredBy bytes).RepliedBy 0 {} ⟨m, .datagram, none⟩ {} query bytes false where
  transport := rfl
  encoded := hquery
  replies := by
    have hfirst : Datagram.first? query [(0, Except.ok bytes)] = some (1, 0, .ok bytes) := by
      simp only [Datagram.first?, Datagram.settles_ok, hanswers, if_true]
    exact ⟨postOffice, rfl, .first (.opened rfl rfl) rfl hfirst rfl⟩

end Rehearsal

namespace Message

variable {m : Message} {query : Bytes}

/-- A reply one octet longer than there is room for comes to a query that announces more. -/
theorem le_maxSize_of_receivedWhole (hquery : m.encode = .ok query) (h : m.ReceivedWhole) :
    Responder.limit m ≤ Datagram.maxSize := by
  by_contra hlong
  obtain ⟨bytes, hbytes⟩ : ∃ bytes : Bytes,
      bytes = query.take 2 ++ List.replicate (Datagram.maxSize - 1) 0 := ⟨_, rfl⟩
  have htwo : (query.take 2).length = 2 := by
    have hword := leadingWord?_encode hquery
    match query, hword with
    | _ :: _ :: _, _ => rfl
  have hlength : bytes.length = Datagram.maxSize + 1 := by
    rw [hbytes, List.length_append, htwo, List.length_replicate]
    rfl
  have hanswers : Datagram.answers query bytes = true := by
    have hfront : bytes.take 2 = query.take 2 := by rw [hbytes, List.take_left' htwo]
    have henough : 2 ≤ bytes.length := hlength ▸ by decide
    simp only [Datagram.answers, hfront, henough, decide_true, Bool.true_and, beq_self_eq_true]
  have hannounced : bytes.length ≤ Responder.limit m := by
    rw [hlength]
    exact Nat.lt_of_not_le hlong
  have hreplied := Rehearsal.repliedBy hquery hanswers
  have hwhole := (h _ 0 {} _ {} query bytes false rfl hreplied hannounced).exchange
  have hsame : some (Except.ok (ε := Failure) (⟨bytes, false⟩ : Reply)) =
      some (.ok ⟨bytes.take Datagram.maxSize, false⟩) := hwhole.symm.trans hreplied.receives.exchange
  have htake : bytes = bytes.take Datagram.maxSize :=
    congrArg Reply.bytes (Except.ok.inj (Option.some.inj hsame))
  have hroom := (Datagram.take_maxSize_eq_iff bytes).mp htake.symm
  omega

/-- Replies within the size that a query announces are received whole exactly if it announces no
more than there is room for. What an exchange gives, and what is read, is always the front of the
datagram that replied; of a longer one that is a message to its end nothing can be read. -/
theorem received_whole (hquery : m.encode = .ok query) :
    (m.ReceivedWhole ↔ Responder.limit m ≤ Datagram.maxSize) ∧
    (∀ (reply : Message) (full : Bytes), reply.Regular → reply.encode = .ok full → Fills full) ∧
    (∀ full : Bytes, Fills full → Datagram.maxSize < full.length →
      (∃ reply, decode full = .ok reply) ∧
      decode (full.take Datagram.maxSize) = .error unreadable) ∧
    ∀ {ω : Type} [Network ω] (p : Proxy ω) (now : Instant) (scope : Scope)
      (transport : Transport) (client : Option SocketAddress) (preference : Preference),
      (∀ bytes reused, p.RepliedBy now scope ⟨m, transport, client⟩ preference query bytes reused →
        p.Receives now scope ⟨m, transport, client⟩ preference query
          ⟨bytes.take Datagram.maxSize, reused⟩ ∧
        (bytes.take Datagram.maxSize = bytes ↔ bytes.length ≤ Datagram.maxSize)) ∧
      ∀ server reply, p.endpoint = .plain server → preference.select transport = .datagram →
        (p.exchangeBytes query .datagram (scope.bound now p.readTimeout) scope.stop? now).1 =
          some (.ok reply) →
        ∃ bytes reused,
          p.RepliedBy now scope ⟨m, transport, client⟩ preference query bytes reused ∧
          reply = ⟨bytes.take Datagram.maxSize, reused⟩ := by
  refine ⟨⟨le_maxSize_of_receivedWhole hquery, receivedWhole_of_le⟩,
    fun reply full hregular hfull => fills_of_encode? hregular (encode_eq_ok.mp hfull),
    fun full hfills hlong => ⟨?_, hfills.decode_take hlong⟩, ?_⟩
  · obtain ⟨reply, hreply⟩ := hfills.exists_decode?
    exact ⟨reply, decode_eq_ok.mpr hreply⟩
  intro ω _ p now scope transport client preference
  refine ⟨fun bytes reused hreplied => ?_, fun server reply hplain htransport hreply => ?_⟩
  · exact ⟨hreplied.receives, Datagram.take_maxSize_eq_iff bytes⟩
  · exact Proxy.exists_repliedBy hplain htransport hquery hreply

end Message

namespace Rehearsal

/-- A question for the name servers of the root, from a sender that takes as many octets. -/
def announcing (extension : Edns) : Request :=
  ⟨{ Message.probe 7 with edns := some extension }, .datagram, none⟩

def announcingOctets (payload : Nat) : Bytes :=
  [0, 7, 1, 0, 0, 1, 0, 0, 0, 0, 0, 1, 0, 0, 2, 0, 1, 0, 0, 41] ++ word16 payload ++
    [0, 0, 0, 0, 0, 0]

/-- The front of a reply with one record, which has 5000 octets of data. -/
def longFront : Bytes :=
  [0, 7, 129, 128, 0, 1, 0, 1, 0, 0, 0, 0, 0, 0, 2, 0, 1,
    0, 0, 99, 0, 1, 0, 0, 0, 60, 19, 136]

def longReply : Bytes := longFront ++ List.replicate 5000 0

def longMessage (record : Record) : Message where
  id := 7
  response := true
  recursionDesired := true
  recursionAvailable := true
  questions := [⟨Name.root, RecordType.ns, 1⟩]
  answers := [record]

theorem name_root (message more : Bytes) (position : Nat) :
    Cursor.name message ⟨position, 0 :: more⟩ = some (Name.root, ⟨position + 1, more⟩) := by
  rw [Cursor.name, Cursor.labels_end more (by simp)]
  rfl

theorem exists_plainRecord_longFront {data : Bytes} (h : data.length = 5000) :
    ∃ record, Cursor.plainRecord (longFront ++ data) ⟨17, longFront.drop 17 ++ data⟩ =
      some (record, ⟨5028, []⟩) := by
  have hroot : Cursor.name (longFront ++ data) ⟨17, longFront.drop 17 ++ data⟩ =
      some (Name.root, ⟨18, longFront.drop 18 ++ data⟩) := name_root _ _ _
  have hhead : Cursor.recordHead (longFront ++ data) ⟨17, longFront.drop 17 ++ data⟩ =
      if data.length < 5000 then none
      else some (⟨Name.root, 99, 1, 60, 5000⟩, ⟨28, data⟩) := by
    rw [Cursor.recordHead, hroot]
    rfl
  rw [if_neg (by omega)] at hhead
  have hfree : RecordType.layout 99 = .free := rfl
  have hfits : (RecordData.octets data).fits 99 = true := by
    have hne : data ≠ [] := by
      rintro rfl
      cases h
    simp [RecordData.fits, hfree, hne, h]
  have hdata : Cursor.data (longFront ++ data) 99 5000 ⟨28, data⟩ =
      some (.octets data, ⟨5028, []⟩) := by
    simp [Cursor.data, hfree, Cursor.octets, h]
  have hbody : Cursor.recordBody (longFront ++ data) ⟨Name.root, 99, 1, 60, 5000⟩ ⟨28, data⟩ =
      some (⟨Name.root, 99, 1, 60, .octets data, hfits⟩, ⟨5028, []⟩) := by
    simp only [Cursor.recordBody, hdata]
    exact dif_pos hfits
  refine ⟨⟨Name.root, 99, 1, 60, .octets data, hfits⟩, ?_⟩
  rw [Cursor.plainRecord, hhead]
  exact hbody

theorem exists_sections_longFront {data : Bytes} (h : data.length = 5000) :
    ∃ record, Message.sections (longFront ++ data) (Message.announced 1) (Message.announced 1)
      (Message.announced 0) (Message.announced 0) ⟨12, longFront.drop 12 ++ data⟩ =
        some (⟨[⟨Name.root, RecordType.ns, 1⟩], [record], [], [], none⟩, ⟨5028, []⟩) := by
  have hroot : Cursor.name (longFront ++ data) ⟨12, longFront.drop 12 ++ data⟩ =
      some (Name.root, ⟨13, longFront.drop 13 ++ data⟩) := name_root _ _ _
  have hquestions : Cursor.repeated (Cursor.question (longFront ++ data)) 1
      ⟨12, longFront.drop 12 ++ data⟩ =
        some ([⟨Name.root, RecordType.ns, 1⟩], ⟨17, longFront.drop 17 ++ data⟩) := by
    rw [Cursor.repeated, Cursor.question, hroot]
    rfl
  obtain ⟨record, hrecord⟩ := exists_plainRecord_longFront h
  refine ⟨record, ?_⟩
  rw [Message.announced_of_lt (by decide), Message.announced_of_lt (by decide), Message.sections,
    hquestions]
  simp only [bind, Option.bind_some, Cursor.repeated, hrecord]
  rfl

/-- The reply is a message with one record, and takes up all of its octets. -/
theorem exists_decode?_longReply :
    Message.Fills longReply ∧ ∃ record, Message.decode? longReply = some (longMessage record) := by
  have hlength : (List.replicate 5000 (0 : UInt8)).length = 5000 := List.length_replicate
  have hheader : longReply = word16 (7 : UInt16).toNat ++ ([129, 128] ++ (word16 1 ++
      (word16 1 ++ (word16 0 ++ word16 0)))) ++
        (longFront.drop 12 ++ List.replicate 5000 0) := rfl
  obtain ⟨record, hsections⟩ := exists_sections_longFront hlength
  refine ⟨.intro hheader hsections, record, ?_⟩
  rw [Message.decode?_of_header hheader, longReply, hsections]
  rfl

/-- A worker that may fail once fails with a reply that cannot be read. -/
theorem run_of_unreadable {ω : Type} [Network ω] {p : Proxy ω} {request : Request} {query : Bytes}
    {reply : Reply} (h : p.Receives 0 {} request {} query reply)
    (hunread : Message.decode reply.bytes = .error Message.unreadable) :
    ∃ t, Worker.run 1 {} request ⟨{}, 0, 0⟩ 0 p =
      some ⟨.settled (.failed Message.unreadable), t,
        Worker.charge 1 (p.attempt 0 {} request {}).2⟩ := by
  obtain ⟨t, hread⟩ := h.read
  rw [hunread] at hread
  have hattempt : Worker.attempt {} request ⟨{}, 0, 0⟩ 0 p =
      (some (.answered (.error Message.unreadable), t), (p.attempt 0 {} request {}).2) := by
    rw [Worker.attempt_eq]
    simp only [DnsFanout.Resolver.attempt, hread]
    rfl
  have hobserved : Worker.observe request 1 (Scope.isCancelled {} t) (Scope.isExpired {} t)
      ⟨{}, 0, 0⟩ (.error Message.unreadable) = .done true (.failed Message.unreadable) := rfl
  exact ⟨t, Worker.run_of_done hattempt hobserved⟩

theorem fails_charge_attempt {ω : Type} [Network ω] (p : Proxy ω) (request : Request) :
    (Worker.charge 1 (p.attempt 0 {} request {}).2).health.fails = p.health.markFailed.fails := by
  have hkept : (p.attempt 0 {} request {}).2.health = p.health := (p.exchange_health ..).1
  have hcharge : Worker.charge 1 (p.attempt 0 {} request {}).2 =
      (p.attempt 0 {} request {}).2.recordFailure.requestProbe := rfl
  rw [hcharge, Proxy.fails_requestProbe, Proxy.recordFailure, hkept]

/-- A reply of 4096 octets comes whole to a query that announces as many. -/
theorem received_full :
    let request := announcing { payload := 4096 }
    let full : Bytes := [0, 7, 129, 128] ++ List.replicate 4092 0
    request.message.encode = .ok (announcingOctets 4096) ∧ request.message.ReceivedWhole ∧
      (answeredBy full).Receives 0 {} request {} (announcingOctets 4096) ⟨full, false⟩ := by
  intro request full
  have hquery : request.message.encode = .ok (announcingOctets 4096) := by cbv
  have hwhole : request.message.ReceivedWhole :=
    (Message.received_whole hquery).1.mpr (Nat.le_refl 4096)
  have hlength : full.length = 4096 := by
    rw [List.length_append, List.length_replicate]
    rfl
  have hanswers : Datagram.answers (announcingOctets 4096) full = true :=
    Datagram.answers_iff.mpr ⟨rfl, rfl⟩
  have hreplied := repliedBy hquery hanswers
  exact ⟨hquery, hwhole, hwhole _ 0 {} request {} _ full false rfl hreplied (Nat.le_of_eq hlength)⟩

/-- A query announces 8192 octets. Its reply of 5028 octets is cut, cannot be read and counts as
a failure. -/
theorem cut_longReply :
    let request := announcing { payload := 8192 }
    let query := announcingOctets 8192
    request.message.encode = .ok query ∧
      (answeredBy longReply).RepliedBy 0 {} request {} query longReply false ∧
      longReply.length ≤ Responder.limit request.message ∧
      (∃ reply, Message.decode longReply = .ok reply ∧ request.matchesReply reply = true) ∧
      (answeredBy longReply).Receives 0 {} request {} query ⟨longReply.take 4096, false⟩ ∧
      Message.decode (longReply.take 4096) = .error Message.unreadable ∧
      ¬request.message.ReceivedWhole ∧
      ∃ run, Worker.run 1 {} request ⟨{}, 0, 0⟩ 0 (answeredBy longReply) = some run ∧
        run.ending.outcome 1 = .failed Message.unreadable ∧ run.resolver.health.fails = 1 := by
  intro request query
  have hquery : request.message.encode = .ok query := by cbv
  have hanswers : Datagram.answers query longReply = true :=
    Datagram.answers_iff.mpr ⟨rfl, rfl⟩
  have hreplied := repliedBy hquery hanswers
  have hlength : longReply.length = 5028 := by
    rw [longReply, List.length_append, List.length_replicate]
    rfl
  have hreceives : (answeredBy longReply).Receives 0 {} request {} query
      ⟨longReply.take 4096, false⟩ := hreplied.receives
  obtain ⟨hfills, record, hread⟩ := exists_decode?_longReply
  have hunread : Message.decode (longReply.take 4096) = .error Message.unreadable :=
    hfills.decode_take (by rw [hlength]; decide)
  refine ⟨hquery, hreplied, by rw [hlength]; decide, ⟨longMessage record, ?_, ?_⟩, hreceives,
    hunread, fun hwhole => ?_, ?_⟩
  · exact Message.decode_eq_ok.mpr hread
  · rfl
  · exact absurd (Message.le_maxSize_of_receivedWhole hquery hwhole) (by decide)
  · obtain ⟨t, hrun⟩ := run_of_unreadable hreceives hunread
    refine ⟨_, hrun, rfl, ?_⟩
    rw [fails_charge_attempt]
    rfl

end Rehearsal

end DnsFanout
