import DnsFanout.Proofs.Merge
import DnsFanout.Proofs.Wire.Regular
import DnsFanout.Proofs.Wire.Size
import Mathlib.Data.List.Permutation
import Mathlib.Data.List.TakeDrop

/-! A message that is sent arrives as it is: decoding undoes encoding for every message that
comes from the wire or is made of such messages, as long as it fits on the wire whole. -/

namespace DnsFanout

namespace Message

/-- The messages that come from the wire, and those that are made of them. -/
inductive Arises : Message → Prop
  | received {bytes : Bytes} {m : Message} (h : decode bytes = .ok m) : Arises m
  | probe (id : UInt16) : Arises (probe id)
  | unreadable (id : UInt16) : Arises (Responder.unreadable id)
  | formatError {request : Request} (h : Arises request.message) : Arises request.formatError
  | serverFailure {request : Request} (h : Arises request.message) :
    Arises (Responder.serverFailure request)
  | merged {outcomes : List Outcome} {m : Message}
    (h : ∀ reply, .success reply ∈ outcomes → Arises reply) (hm : merge outcomes = .ok m) :
    Arises m
  | shortened {m : Message} (h : Arises m) : Arises (Responder.shorten m)

theorem decode_eq_ok {bytes : Bytes} {m : Message} :
    decode bytes = .ok m ↔ decode? bytes = some m := by
  unfold decode
  cases decode? bytes <;> simp

theorem encode_eq_ok {m : Message} {bytes : Bytes} :
    m.encode = .ok bytes ↔ m.encode? = some bytes := by
  unfold encode
  cases m.encode? <;> simp

namespace Regular

theorem of_decode {bytes : Bytes} {m : Message} (h : decode bytes = .ok m) : m.Regular :=
  regular_of_decode? (decode_eq_ok.mp h)

theorem reply {request : Request} (h : request.message.Regular) (code : ResponseCode) :
    (request.reply code).Regular := by
  refine regular_of_empty (fun q hq => h.questions q ?_) rfl rfl rfl
  exact List.mem_of_mem_head? (Option.mem_toList.mp hq)

theorem serverFailure {request : Request} (h : request.message.Regular) :
    (Responder.serverFailure request).Regular :=
  regular_of_empty (h.reply ResponseCode.serverFailure).questions rfl rfl rfl

theorem shorten {m : Message} (h : m.Regular) : (Responder.shorten m).Regular :=
  regular_of_empty h.questions rfl rfl rfl

theorem merge {outcomes : List Outcome} {m : Message}
    (h : ∀ reply, .success reply ∈ outcomes → reply.Regular) (hm : merge outcomes = .ok m) :
    m.Regular := by
  obtain ⟨frame, hframe, -, rfl⟩ := merge_eq_ok hm
  have hr := h frame hframe
  refine ⟨hr.questions, fun record hrecord => ?_, hr.authority, hr.additional⟩
  obtain ⟨outcome, hin, hmem⟩ := List.mem_flatMap.mp hrecord
  obtain ⟨given, rfl, hgiven⟩ := Outcome.mem_addresses.mp hmem
  exact (h given hin).answers record (List.mem_filter.mp hgiven).1

theorem of_arises {m : Message} (h : m.Arises) : m.Regular := by
  induction h with
  | received h => exact of_decode h
  | probe id => exact regular_probe id
  | unreadable id => exact regular_of_empty nofun rfl rfl rfl
  | formatError _ ih => exact ih.reply _
  | serverFailure _ ih => exact ih.serverFailure
  | merged _ hm ih => exact merge ih hm
  | shortened _ ih => exact ih.shorten

end Regular

theorem Body.Holds.complete_iff {b : Body} {m : Message} {header : Bytes}
    (h : b.Holds m header) : b.complete = true ↔
      b.answers.count = m.answers.length ∧ b.authority.count = m.authority.length ∧
        b.additional.count = m.additional.length ∧ b.extension.count = m.edns.toList.length := by
  have hextension := h.extension.complete_iff
  rw [List.length_map] at hextension
  simp only [Body.complete, Bool.and_eq_true, h.answers.complete_iff, h.authority.complete_iff,
    h.additional.complete_iff, hextension, and_assoc]

/-- What is decoded is the message itself exactly if all of it is in the wire form. -/
theorem cut_eq_self_iff {m : Message} {b : Body} (hm : m.Regular) (hb : m.body? = some b)
    (hcode : m.rcode.val < 16 ∨ m.edns.isSome) : m.cut b = m ↔ b.complete = true := by
  have h := holds_of_body? hm hb (m.length_header b)
  rw [h.complete_iff]
  constructor
  · intro hcut
    have hedns : (m.edns.toList.take b.extension.count).head? = m.edns := congrArg edns hcut
    have ha := (List.take_eq_self_iff _).mp (congrArg answers hcut)
    have hu := (List.take_eq_self_iff _).mp (congrArg authority hcut)
    have hd := (List.take_eq_self_iff _).mp (congrArg additional hcut)
    have he := h.extension.count_le
    rw [List.length_map] at he
    refine ⟨Nat.le_antisymm h.answers.count_le ha, Nat.le_antisymm h.authority.count_le hu,
      Nat.le_antisymm h.additional.count_le hd, Nat.le_antisymm he ?_⟩
    cases hsome : m.edns with
    | none => simp
    | some e =>
      rw [hsome] at hedns
      cases hcount : b.extension.count with
      | zero => simp [hcount] at hedns
      | succ n => simp
  · intro hcounts
    have hcomplete := h.complete_iff.mpr hcounts
    obtain ⟨ha, hu, hd, he⟩ := hcounts
    have hedns : (m.edns.toList.take b.extension.count).head? = m.edns := by
      rw [he, List.take_length]
      cases m.edns <;> rfl
    have hrcode : (if m.edns.isSome then m.rcode else ResponseCode.ofNat (m.rcode.val % 16)) =
        m.rcode := by
      split
      · rfl
      · next hnone =>
        rw [Nat.mod_eq_of_lt (hcode.resolve_right hnone)]
        exact Fin.ofNat_val_eq_self m.rcode
    simp only [cut, hedns, hrcode, hcomplete, ha, hu, hd, List.take_length, Bool.not_true,
      Bool.or_false]

/-- Decoding undoes encoding exactly for the messages that fit on the wire whole, and those
that take at most 65535 octets without compression do. -/
theorem decode_encode {m : Message} (hm : m.Arises)
    (hcode : m.rcode.val < 16 ∨ m.edns.isSome) :
    (m.fits = true ↔ m.encode.bind decode = .ok m) ∧
      (m.plainSize ≤ Emit.maxSize → m.fits = true) := by
  refine ⟨?_, fits_of_plainSize⟩
  have hregular := Regular.of_arises hm
  cases hb : m.body? with
  | none => simp [fits, encode, encode?_eq, hb, Except.bind]
  | some b =>
    have hencode : m.encode.bind decode = .ok (m.cut b) := by
      rw [encode_eq_ok.mpr (by rw [encode?_eq, hb]; rfl)]
      exact decode_eq_ok.mpr (decode?_wire hregular hb)
    rw [hencode, Except.ok.injEq, cut_eq_self_iff hregular hb hcode]
    simp [fits, hb]

/-- A referral whose names share their endings, with an address that is left out, an option
and a response code of twelve bits. -/
def referralOctets : Bytes := [
  0x12, 0x34, 0x85, 0x83, 0, 1, 0, 1, 0, 1, 0, 1,
  1, 97, 2, 98, 67, 0, 0, 1, 0, 1,
  0xC0, 12, 0, 1, 0, 1, 0, 0, 0, 60, 0, 0,
  0xC0, 14, 0, 2, 0, 1, 0, 0, 0, 60, 0, 5, 2, 110, 115, 0xC0, 12,
  0, 0, 41, 4, 0xD0, 0xFF, 0, 0x80, 0, 0, 6, 0, 10, 0, 2, 7, 8]

def referral : Message :=
  let zone : Name := ⟨[⟨[98, 67], by decide, by decide⟩], true, by decide⟩
  let asked : Name := ⟨[⟨[97], by decide, by decide⟩, ⟨[98, 67], by decide, by decide⟩], true,
    by decide⟩
  let server : Name := ⟨[⟨[110, 115], by decide, by decide⟩, ⟨[97], by decide, by decide⟩,
    ⟨[98, 67], by decide, by decide⟩], true, by decide⟩
  { id := 0x1234
    response := true
    authoritative := true
    recursionDesired := true
    recursionAvailable := true
    rcode := ResponseCode.ofNat 4083
    questions := [⟨asked, RecordType.a, 1⟩]
    answers := [⟨asked, RecordType.a, 1, 60, .empty, rfl⟩]
    authority := [⟨zone, RecordType.ns, 1, 60, .host server, rfl⟩]
    edns := some { payload := 1232, flags := 0x8000, options := [(10, [7, 8])] } }

theorem decode_encode_referral : decode referralOctets = .ok referral ∧ referral.fits = true ∧
    referral.encode.bind decode = .ok referral := by
  have hreceived : decode referralOctets = .ok referral := decode_eq_ok.mpr (by cbv)
  obtain ⟨hiff, hfits⟩ := decode_encode (.received hreceived) (.inr rfl)
  have hsmall := hfits (by decide)
  exact ⟨hreceived, hsmall, hiff.mp hsmall⟩

end Message

end DnsFanout
