import DnsFanout.Net.Frame
import DnsFanout.Proofs.Results
import DnsFanout.Proofs.Wire.Offset
import DnsFanout.Proofs.Wire.RoundTrip

/-! What is sent on a stream is what is read from it, however the stream comes apart into
pieces. Octets split in one way only into whole frames and a last one that is cut off, and
the reader follows that split. -/

namespace DnsFanout.Net.Frame

variable {message rest s cut : Bytes}

/-- A message as it stands on a stream. -/
def frame (message : Bytes) : Bytes := word16 message.length ++ message

/-! ### Writing -/

theorem send_eq (message sent : Bytes) : send message sent =
    if maxSize < message.length then (.error (.tooLarge message.length), sent)
    else (.ok (), sent ++ frame message) := by
  by_cases hsize : maxSize < message.length <;> simp [send, encode, hsize, frame]

/-- Messages sent one after another; after a message that is refused the next is tried. -/
def sendAll (messages : List Bytes) (sent : Bytes) : Bytes :=
  messages.foldl (fun sent message => (send message sent).2) sent

theorem sendAll_eq (messages : List Bytes) (sent : Bytes) :
    sendAll messages sent =
      sent ++ (messages.filter (·.length ≤ maxSize)).flatMap frame := by
  induction messages generalizing sent with
  | nil => simp [sendAll]
  | cons message messages ih =>
    have hstep : sendAll (message :: messages) sent = sendAll messages (send message sent).2 := rfl
    rw [hstep, ih, send_eq]
    by_cases hsize : maxSize < message.length
    · simp [hsize, List.filter_cons_of_neg]
    · simp [hsize, Nat.le_of_not_lt hsize]

/-! ### The first frame -/

theorem toNat_ofWord16_le (a b : UInt8) : (ofWord16 a b).toNat ≤ maxSize :=
  Nat.le_of_lt_succ (ofWord16 a b).toNat_lt

theorem split?_eq_some :
    split? s = some (message, rest) ↔ message.length ≤ maxSize ∧ s = frame message ++ rest := by
  constructor
  · intro h
    unfold split? at h
    split at h
    · next a b tail =>
      simp only [Option.ite_none_right_eq_some, Option.some.injEq, Prod.mk.injEq] at h
      obtain ⟨hsize, rfl, rfl⟩ := h
      have hlength : (tail.take (ofWord16 a b).toNat).length = (ofWord16 a b).toNat := by
        rw [List.length_take, Nat.min_eq_left hsize]
      refine ⟨Nat.le_trans (Nat.le_of_eq hlength) (toNat_ofWord16_le a b), ?_⟩
      rw [frame, hlength, word16_ofWord16, List.append_assoc, List.take_append_drop]
      rfl
    · cases h
  · rintro ⟨hlength, rfl⟩
    have hsize : (ofWord16 (message.length / 256).toUInt8 message.length.toUInt8).toNat =
        message.length := toNat_ofWord16 (by simp only [maxSize] at hlength; omega)
    simp [split?, frame, word16, hsize]

theorem split?_frame (h : message.length ≤ maxSize) (rest : Bytes) :
    split? (frame message ++ rest) = some (message, rest) :=
  split?_eq_some.mpr ⟨h, rfl⟩

/-- The octets end in front of a frame or inside it. -/
def Incomplete (cut : Bytes) : Prop :=
  ∃ next : Bytes, next.length ≤ maxSize ∧ cut <+: frame next ∧ cut ≠ frame next

theorem Incomplete.split? (h : Incomplete cut) : split? cut = none := by
  obtain ⟨next, hnext, ⟨more, hmore⟩, hne⟩ := h
  refine Option.eq_none_iff_forall_ne_some.mpr fun ⟨message, rest⟩ hsplit => ?_
  obtain ⟨hmessage, rfl⟩ := split?_eq_some.mp hsplit
  -- a message inside the cut would be the one that is cut off
  have hwhole := split?_frame hnext []
  rw [List.append_nil, ← hmore, List.append_assoc, split?_frame hmessage] at hwhole
  obtain ⟨-, hrest⟩ := Prod.mk.inj (Option.some.inj hwhole)
  rw [(List.append_eq_nil_iff.mp hrest).2, List.append_nil] at hmore
  exact hne hmore

theorem incomplete_of_split? (h : Frame.split? cut = none) : Incomplete cut := by
  match cut with
  | [] => exact ⟨[], by decide, List.nil_prefix, by decide⟩
  | [a] =>
    refine ⟨List.replicate (ofWord16 a 0).toNat 0, ?_, ?_, ?_⟩
    · rw [List.length_replicate]
      exact toNat_ofWord16_le a 0
    · rw [frame, List.length_replicate, word16_ofWord16]
      exact ⟨_, rfl⟩
    · intro heq
      have := congrArg List.length heq
      simp only [frame, List.length_append, length_word16, List.length_singleton] at this
      omega
  | a :: b :: tail =>
    have hshort : tail.length < (ofWord16 a b).toNat := by
      simpa [Frame.split?] using h
    have hlength : (tail ++ List.replicate ((ofWord16 a b).toNat - tail.length) 0).length =
        (ofWord16 a b).toNat := by
      rw [List.length_append, List.length_replicate]
      omega
    refine ⟨tail ++ List.replicate ((ofWord16 a b).toNat - tail.length) 0, ?_, ?_, ?_⟩
    · rw [hlength]
      exact toNat_ofWord16_le a b
    · rw [frame, hlength, word16_ofWord16]
      exact ⟨_, List.append_assoc [a, b] tail _⟩
    · intro heq
      have := congrArg List.length heq
      rw [frame, List.length_append, length_word16, hlength] at this
      simp only [List.length_cons] at this
      omega

/-! ### All frames -/

theorem splitAll_frame (h : message.length ≤ maxSize) (rest : Bytes) :
    splitAll (frame message ++ rest) = message :: splitAll rest := by
  rw [splitAll]
  split
  · next hnone =>
    rw [split?_frame h] at hnone
    cases hnone
  · next hsome =>
    rw [split?_frame h] at hsome
    cases hsome
    rfl

theorem splitAll_of_split? (h : split? s = none) : splitAll s = [] := by
  rw [splitAll]
  split
  · rfl
  · next hsome =>
    rw [h] at hsome
    cases hsome

theorem splitAll_flatMap {messages : List Bytes} (h : ∀ m ∈ messages, m.length ≤ maxSize)
    (hcut : Incomplete cut) : splitAll (messages.flatMap frame ++ cut) = messages := by
  induction messages with
  | nil => exact splitAll_of_split? hcut.split?
  | cons message messages ih =>
    obtain ⟨hmessage, hmessages⟩ := List.forall_mem_cons.mp h
    rw [List.flatMap_cons, List.append_assoc, splitAll_frame hmessage, ih hmessages]

/-- Any octets are whole frames and a last one that is cut off. -/
theorem exists_cut (s : Bytes) :
    ∃ cut, Incomplete cut ∧ s = (splitAll s).flatMap frame ++ cut ∧
      ∀ m ∈ splitAll s, m.length ≤ maxSize := by
  fun_induction splitAll s with
  | case1 s hsplit => exact ⟨s, incomplete_of_split? hsplit, rfl, nofun⟩
  | case2 s message rest hsplit ih =>
    obtain ⟨hmessage, rfl⟩ := split?_eq_some.mp hsplit
    obtain ⟨cut, hcut, hrest, hlengths⟩ := ih
    refine ⟨cut, hcut, ?_, List.forall_mem_cons.mpr ⟨hmessage, hlengths⟩⟩
    rw [List.flatMap_cons, List.append_assoc, ← hrest]

/-! ### Reading from pieces -/

theorem take_eq_error {n : Nat} {s : Inbound} {cause : Fault} (h : take n s = .error cause) :
    cause = .earlyEnd ∧ s.octets.length < n := by
  induction s generalizing n with
  | nil =>
    cases n with
    | zero => cases h
    | succ n => cases h; exact ⟨rfl, Nat.succ_pos n⟩
  | cons front s ih =>
    obtain ⟨arrival, piece⟩ := front
    cases n with
    | zero => cases h
    | succ n =>
      unfold take at h
      split at h
      · cases h
      · next hn =>
        cases hmore : take (n + 1 - piece.length) s with
        | ok more => rw [hmore] at h; cases h
        | error found =>
          rw [hmore] at h
          cases h
          obtain ⟨hfound, hshort⟩ := ih hmore
          refine ⟨hfound, ?_⟩
          simp only [Inbound.octets, List.flatMap_cons, List.length_append] at hshort ⊢
          omega

/-- A read takes the first frame, whatever the pieces are. -/
theorem split?_of_read {s : Inbound} {t : Taken} (h : read s = .ok t) :
    split? s.octets = some (t.bytes, t.rest.octets) := by
  obtain ⟨size, hsize, h⟩ := bind_eq_ok.mp h
  obtain ⟨message, hmessage, h⟩ := bind_eq_ok.mp h
  cases h
  obtain ⟨htwo, hs⟩ := octets_of_take hsize
  obtain ⟨hlength, hrest⟩ := octets_of_take hmessage
  match hbytes : size.bytes, htwo with
  | [a, b], _ =>
    rw [hbytes] at hlength hs
    have hlength : message.bytes.length = (ofWord16 a b).toNat := hlength
    refine split?_eq_some.mpr ⟨?_, ?_⟩
    · rw [hlength]
      exact toNat_ofWord16_le a b
    · rw [hs, hrest, frame, hlength, word16_ofWord16, List.append_assoc]

theorem split?_of_read_error {s : Inbound} {cause : Fault} (h : read s = .error cause) :
    cause = .earlyEnd ∧ split? s.octets = none := by
  unfold read at h
  cases hsize : take 2 s with
  | error found =>
    rw [hsize] at h
    cases h
    obtain ⟨hfound, hshort⟩ := take_eq_error hsize
    refine ⟨hfound, ?_⟩
    match s.octets, hshort with
    | [], _ => rfl
    | [_], _ => rfl
  | ok size =>
    rw [hsize] at h
    obtain ⟨htwo, hs⟩ := octets_of_take hsize
    match hbytes : size.bytes, htwo with
    | [a, b], _ =>
      cases hmessage : take (ofWord16 a b).toNat size.rest with
      | ok message => simp [bind, Except.bind, hbytes, leadingWord?, hmessage, pure, Except.pure] at h
      | error found =>
        simp [bind, Except.bind, hbytes, leadingWord?, hmessage] at h
        obtain ⟨hfound, hshort⟩ := take_eq_error hmessage
        refine ⟨h ▸ hfound, ?_⟩
        rw [hs, hbytes]
        exact if_neg (Nat.not_le.mpr hshort)

/-- What is read does not depend on the pieces. -/
theorem readAll_eq (s : Inbound) :
    (readAll s).messages.map Prod.snd = splitAll s.octets ∧ (readAll s).fault = .earlyEnd := by
  fun_induction readAll s with
  | case1 s cause hread =>
    obtain ⟨hcause, hsplit⟩ := split?_of_read_error hread
    exact ⟨(splitAll_of_split? hsplit).symm, hcause⟩
  | case2 s message hread more ih =>
    obtain ⟨hmessages, hfault⟩ := ih
    obtain ⟨hlength, hs⟩ := split?_eq_some.mp (split?_of_read hread)
    refine ⟨?_, hfault⟩
    rw [hs, splitAll_frame hlength, ← hmessages]
    rfl

/-- Messages come out as they went in. What was sent of them, in any pieces, and ending before
or inside a further frame, is read as those messages that were not refused, in order, and
then the stream has ended early. A message is refused when its length does not fit in two
octets, and nothing of it is sent; no message has a wire form like that. -/
theorem readAll_sendAll (messages : List Bytes) {cut : Bytes} {s : Inbound}
    (hcut : Incomplete cut) (hs : s.octets = sendAll messages [] ++ cut) :
    (readAll s).messages.map Prod.snd = messages.filter (·.length ≤ maxSize) ∧
      (readAll s).fault = .earlyEnd ∧
      (∀ message sent : Bytes, send message sent =
        if maxSize < message.length then (.error (.tooLarge message.length), sent)
        else (.ok (), sent ++ frame message)) ∧
      ∀ (m : Message) (bytes : Bytes), m.encode = .ok bytes → bytes.length ≤ maxSize := by
  obtain ⟨hmessages, hfault⟩ := readAll_eq s
  refine ⟨?_, hfault, send_eq, fun m bytes h => ?_⟩
  · rw [hmessages, hs, sendAll_eq, List.nil_append]
    exact splitAll_flatMap (fun m hm => by simpa using (List.mem_filter.mp hm).2) hcut
  · exact Message.length_encode?_le (Message.encode_eq_ok.mp h)

/-- An empty message and one of three octets, in four pieces, and the first octet of a third. -/
theorem readAll_sendAll_pieces :
    let s : Inbound := [(0, [0]), (5, [0, 0, 3, 1]), (5, []), (9, [2, 3, 0])]
    let format : Bytes := [0, 7, 128, 1, 0, 0, 0, 0, 0, 0, 0, 0]
    Incomplete [0] ∧ s.octets = sendAll [[], [1, 2, 3]] [] ++ [0] ∧
      (readAll s).messages.map Prod.snd = [[], [1, 2, 3]] ∧ (readAll s).fault = .earlyEnd ∧
      (Responder.unreadable 7).encode = .ok format ∧ format.length ≤ maxSize := by
  intro s format
  have hcut : Incomplete [0] := ⟨[], by decide, by decide, by decide⟩
  have hs : s.octets = sendAll [[], [1, 2, 3]] [] ++ [0] := rfl
  have hformat : (Responder.unreadable 7).encode = .ok format := by rfl
  obtain ⟨hmessages, hfault, -, hlength⟩ := readAll_sendAll [[], [1, 2, 3]] hcut hs
  exact ⟨hcut, hs, hmessages, hfault, hformat, hlength _ _ hformat⟩

end DnsFanout.Net.Frame
