import DnsFanout.Proofs.Wire.Emission

/-! Questions, records and the extension record in the octets of a message. The length of a
record's data is known only after the data has been written. -/

namespace DnsFanout

def RecordData.Absolute : RecordData → Prop
  | empty | octets _ => True
  | host n | exchange _ n => n.absolute = true
  | authority primary contact .. => primary.absolute = true ∧ contact.absolute = true

/-- All names in a record are absolute, as on the wire. -/
structure Record.Absolute (r : Record) : Prop where
  owner : r.owner.absolute = true
  data : r.data.Absolute

namespace Cursor

variable {message : Bytes} {type : RecordType} {size : Nat}

theorem data_host (hsize : size ≠ 0) (hlayout : type.layout = .host) :
    data message type size = fun c => do
      let (n, c) ← name message c
      return (.host n, c) := by
  funext c
  rw [data, if_neg hsize, hlayout]

theorem data_exchange (hsize : size ≠ 0) (hlayout : type.layout = .exchange) :
    data message type size = fun c => do
      let (preference, c) ← word16 c
      let (n, c) ← name message c
      return (.exchange preference n, c) := by
  funext c
  rw [data, if_neg hsize, hlayout]

theorem data_authority (hsize : size ≠ 0) (hlayout : type.layout = .authority) :
    data message type size = fun c => do
      let (primary, c) ← name message c
      let (contact, c) ← name message c
      let (serial, c) ← word32 c
      let (refresh, c) ← word32 c
      let (retry, c) ← word32 c
      let (expire, c) ← word32 c
      let (minimum, c) ← word32 c
      return (.authority primary contact serial refresh retry expire minimum, c) := by
  funext c
  rw [data, if_neg hsize, hlayout]

theorem octets_append (bytes more : Bytes) (position : Nat) :
    octets bytes.length ⟨position, bytes ++ more⟩ =
      some (bytes, ⟨position + bytes.length, more⟩) := by
  simp [octets]

theorem data_octets {bytes : Bytes} (hfit : (RecordData.octets bytes).fits type = true)
    (more : Bytes) (position : Nat) :
    data message type bytes.length ⟨position, bytes ++ more⟩ =
      some (.octets bytes, ⟨position + bytes.length, more⟩) := by
  have hne : bytes.length ≠ 0 := by
    intro hzero
    simp [RecordData.fits, List.length_eq_zero_iff.mp hzero] at hfit
  rw [data, if_neg hne]
  cases hlayout : type.layout <;>
    simp [RecordData.fits, hlayout, octets_append] at hfit ⊢

/-- A record of any section, unless it is an extension record. -/
def looseRecord (message : Bytes) : Take Record := fun c => do
  let (head, c) ← recordHead message c
  if head.type = RecordType.opt then none else recordBody message head c

def extensionRecord (message : Bytes) : Take (Nat × Edns) := fun c => do
  let (head, c) ← recordHead message c
  if head.type = RecordType.opt then edns head c else none

end Cursor

namespace Emit

/-- What is not empty is data of the layout of its type. -/
theorem ReadAs.data {e : Emit} {take : Bytes → Take RecordData} {d : RecordData}
    {type : RecordType}
    (htake : ∀ {message size}, size ≠ 0 → Cursor.data message type size = take message)
    (h : e.ReadAs take d) (hne : ∀ {w out w'}, e w = some (out, w') → out ≠ []) :
    e.SizedAs (fun size message => Cursor.data message type size) d := by
  refine ⟨fun {front w out w'} hw he => ?_⟩
  have hsize : out.length ≠ 0 := fun hzero => hne he (List.length_eq_zero_iff.mp hzero)
  simpa only [htake hsize] using h.run hw he

theorem append_ne_nil {first second : Emit}
    (hne : ∀ {w out w'}, first w = some (out, w') → out ≠ []) {w w' : Written} {out : Bytes}
    (h : (first ++ second) w = some (out, w')) : out ≠ [] := by
  obtain ⟨x, middle, y, hx, -, rfl⟩ := append_eq_some h
  exact List.append_ne_nil_of_left_ne_nil (hne hx) y

theorem octets_ne_nil {bytes : Bytes} (hne : bytes ≠ []) {w w' : Written} {out : Bytes}
    (h : octets bytes w = some (out, w')) : out ≠ [] := by
  rwa [(octets_eq_some h).1]

theorem sizedAs_data {d : RecordData} {type : RecordType} (hfit : d.fits type = true)
    (h : d.Absolute) :
    (data d).SizedAs (fun size message => Cursor.data message type size) d := by
  cases d with
  | empty =>
    have hempty : (octets []).ReadAs (fun _ c => some (RecordData.empty, c)) .empty :=
      readAs_octets fun _ _ _ => rfl
    refine ⟨fun {front w out w'} hw he => ?_⟩
    obtain ⟨rfl, -⟩ := octets_eq_some he
    exact hempty.run hw he
  | octets bytes =>
    refine ⟨fun {front w out w'} hw he => ?_⟩
    have hread : (octets bytes).ReadAs (fun message => Cursor.data message type bytes.length)
        (.octets bytes) :=
      readAs_octets fun message position more => Cursor.data_octets hfit more position
    obtain ⟨rfl, -⟩ := octets_eq_some he
    exact hread.run hw he
  | host n =>
    refine ReadAs.data (fun hsize => Cursor.data_host hsize (of_decide_eq_true hfit)) ?_
      name_ne_nil
    exact (readAs_name h).finish fun _ _ => rfl
  | exchange preference n =>
    refine ReadAs.data (fun hsize => Cursor.data_exchange hsize (of_decide_eq_true hfit)) ?_
      (append_ne_nil (octets_ne_nil (by simp [word16])))
    exact (readAs_word16 preference).append <| (readAs_name h).finish fun _ _ => rfl
  | authority primary contact serial refresh retry expire minimum =>
    simp only [data, append_assoc]
    refine ReadAs.data (fun hsize => Cursor.data_authority hsize (of_decide_eq_true hfit)) ?_
      (append_ne_nil name_ne_nil)
    exact (readAs_name h.1).append <| (readAs_name h.2).append <|
      (readAs_word32 serial).append <| (readAs_word32 refresh).append <|
      (readAs_word32 retry).append <| (readAs_word32 expire).append <|
      (readAs_word32 minimum).finish fun _ _ => rfl

theorem readAs_question {q : Question} (h : q.name.absolute = true) :
    (question q).ReadAs Cursor.question q := by
  rw [question, append_assoc]
  exact (readAs_name h).append <| (readAs_word16 q.type).append <|
    (readAs_word16 q.questionClass).finish fun _ _ => rfl

/-- The length is read first, and that many octets must follow. -/
theorem SizedAs.sized {α β : Type} {body : Emit} {head : Nat → α}
    {next : Bytes → α × Cursor → Option (β × Cursor)} {x : β}
    (h : body.SizedAs (fun size message c => next message (head size, c)) x) :
    (sized body).ReadAs (fun message c => Cursor.word16 c >>= fun (size, c) =>
      (if c.rest.length < size.toNat then none else some (head size.toNat, c)) >>=
        next message) x := by
  refine ⟨fun {front w out w'} hw he => ?_⟩
  obtain ⟨bytes, hroom, hbody, rfl⟩ := sized_eq_some he
  have hfront : Written.Matches { w with offset := w.offset + 2 }
      (front ++ word16 bytes.length) := by
    refine ⟨?_, ?_, fun e he => (hw.ending e he).append _⟩
    · rw [hw.offset, List.length_append, length_word16]
    · rwa [List.length_append, length_word16, ← hw.offset]
  obtain ⟨hlast, hread⟩ := h.run hfront hbody
  refine ⟨by rwa [← List.append_assoc], fun message more hmessage => ?_⟩
  have hlt : bytes.length < 65536 := by
    have hmax := hlast.le_max
    rw [List.length_append, maxSize] at hmax
    omega
  have hbytes := hread message more (by simpa only [List.append_assoc] using hmessage)
  rw [List.length_append, length_word16, Nat.add_assoc] at hbytes
  simp [word16, Cursor.word16, toNat_ofWord16 hlt, hbytes, Nat.add_comm 2,
    Nat.not_lt.mpr (Nat.le_add_right bytes.length more.length)]

theorem ReadAs.headed {α : Type} {owner : Name} {type : RecordType} {recordClass : UInt16}
    {ttl : UInt32} {body : Emit} {next : Bytes → Cursor.RecordHead × Cursor → Option (α × Cursor)}
    {x : α} (howner : owner.absolute = true)
    (h : body.SizedAs
      (fun size message c => next message (⟨owner, type, recordClass, ttl, size⟩, c)) x) :
    (name owner ++ (octets (word16 type.toNat) ++ (octets (word16 recordClass.toNat) ++
      (octets (word32 ttl.toNat) ++ Emit.sized body)))).ReadAs
      (fun message c => Cursor.recordHead message c >>= next message) x := by
  simp only [Cursor.recordHead, bind_assoc]
  refine (readAs_name howner).append ?_
  dsimp only
  refine (readAs_word16 type).append ?_
  dsimp only
  refine (readAs_word16 recordClass).append ?_
  dsimp only
  exact (readAs_word32 ttl).append h.sized

theorem sizedAs_recordBody {r : Record} (h : r.Absolute) :
    (data r.data).SizedAs (fun size message c => Cursor.recordBody message
      ⟨r.owner, r.type, r.recordClass, r.ttl, size⟩ c) r := by
  refine ⟨fun {front w out w'} hw he => ?_⟩
  obtain ⟨hlast, hread⟩ := (sizedAs_data r.fits h.data).run hw he
  refine ⟨hlast, fun message more hmessage => ?_⟩
  simp [Cursor.recordBody, hread message more hmessage, r.fits]

theorem readAs_record {r : Record} (h : r.Absolute) (hplain : r.type.isAdditionalOnly = false) :
    (record r).ReadAs Cursor.plainRecord r := by
  simp only [record, append_assoc]
  refine ReadAs.headed h.owner ?_
  simpa only [hplain, Bool.false_eq_true, if_false] using sizedAs_recordBody h

theorem readAs_looseRecord {r : Record} (h : r.Absolute) (hplain : r.type ≠ RecordType.opt) :
    (record r).ReadAs Cursor.looseRecord r := by
  simp only [record, append_assoc]
  refine ReadAs.headed h.owner ?_
  simpa only [if_neg hplain] using sizedAs_recordBody h

/-! ### The extension record -/

theorem octets_append (first second : Bytes) :
    octets first ++ octets second = octets (first ++ second) := by
  funext w
  show (octets first).andThen (octets second) w = octets (first ++ second) w
  by_cases hfirst : w.offset + first.length ≤ maxSize
  · by_cases hsecond : w.offset + (first.length + second.length) ≤ maxSize <;>
      simp [andThen, octets, hfirst, hsecond, Nat.add_assoc]
  · have hboth : ¬w.offset + (first.length + second.length) ≤ maxSize := by omega
    simp [andThen, octets, hfirst, hboth]

def optionOctets (options : List (UInt16 × Bytes)) : Bytes :=
  options.flatMap fun o => word16 o.1.toNat ++ word16 o.2.length ++ o.2

theorem options_eq_octets (opts : List (UInt16 × Bytes)) :
    options opts = octets (optionOctets opts) := by
  induction opts with
  | nil => rfl
  | cons o opts ih =>
    obtain ⟨code, value⟩ := o
    simp only [options, option, ih, octets_append, optionOctets, List.flatMap_cons]

theorem length_le_optionOctets {opts : List (UInt16 × Bytes)} {o : UInt16 × Bytes}
    (h : o ∈ opts) : o.2.length ≤ (optionOctets opts).length := by
  obtain ⟨before, after, rfl⟩ := List.append_of_mem h
  simp only [optionOctets, List.flatMap_append, List.flatMap_cons, List.length_append]
  omega

/-- Options are read back when the data around them is no longer than its length can tell. -/
theorem options_optionOctets {size : Nat} (hsize : size < 65536) {opts : List (UInt16 × Bytes)}
    (h : ∀ o ∈ opts, o.2.length ≤ size) :
    Cursor.options size (optionOctets opts) = some (some opts) := by
  induction opts with
  | nil => rw [optionOctets, List.flatMap_nil, Cursor.options]
  | cons o opts ih =>
    obtain ⟨code, value⟩ := o
    have hle : value.length ≤ size := h _ List.mem_cons_self
    have hrest := ih fun o ho => h o (List.mem_cons_of_mem _ ho)
    have hoctets : optionOctets ((code, value) :: opts) =
        (code.toNat / 256).toUInt8 :: code.toNat.toUInt8 :: (value.length / 256).toUInt8 ::
          value.length.toUInt8 :: (value ++ optionOctets opts) := rfl
    rw [hoctets, Cursor.options, toNat_ofWord16 (Nat.lt_of_le_of_lt hle hsize),
      if_neg (Nat.not_lt.mpr hle), if_neg (by simp), List.take_left, List.drop_left, hrest,
      ofWord16_word16]
    rfl

end Emit

/-- The time to live of the extension record: the high octet of the response code, the
version and the flags. -/
def Edns.ttl (rcode : ResponseCode) (e : Edns) : UInt32 :=
  (rcode.val / 16 * 16777216 + e.version.toNat * 65536 + e.flags.toNat).toUInt32

namespace Emit

theorem toNat_ttl (rcode : ResponseCode) (e : Edns) :
    (e.ttl rcode).toNat = rcode.val / 16 * 16777216 + e.version.toNat * 65536 + e.flags.toNat := by
  have := rcode.isLt
  have := e.version.toNat_lt
  have := e.flags.toNat_lt
  rw [Edns.ttl, Nat.toUInt32_eq, UInt32.toNat_ofNat']
  omega

theorem word32_ttl (rcode : ResponseCode) (e : Edns) :
    [(rcode.val / 16).toUInt8, e.version] ++ word16 e.flags.toNat =
      word32 (e.ttl rcode).toNat := by
  have := rcode.isLt
  have := e.version.toNat_lt
  have := e.flags.toNat_lt
  rw [toNat_ttl]
  simp only [word32, word16, List.cons_append, List.nil_append, List.cons.injEq, and_true,
    ← UInt8.toNat_inj, Nat.toUInt8_eq, UInt8.toNat_ofNat']
  omega

theorem readAs_edns (rcode : ResponseCode) (e : Edns) :
    (edns rcode e).ReadAs Cursor.extensionRecord (rcode.val / 16, e) := by
  have hshape : edns rcode e = name Name.root ++ (octets (word16 RecordType.opt.toNat) ++
      (octets (word16 e.payload.toNat) ++ (octets (word32 (e.ttl rcode).toNat) ++
        sized (options e.options)))) := by
    simp only [edns, append_assoc, ← word32_ttl, ← octets_append]
  rw [hshape]
  refine ReadAs.headed rfl ?_
  refine ⟨fun {front w out w'} hw he => ?_⟩
  rw [options_eq_octets] at he
  obtain ⟨rfl, -⟩ := octets_eq_some he
  have hread : (octets (optionOctets e.options)).ReadAs
      (fun _ => Cursor.octets (optionOctets e.options).length) (optionOctets e.options) :=
    readAs_octets fun _ position more => Cursor.octets_append _ more position
  obtain ⟨hlast, hoctets⟩ := hread.run hw he
  refine ⟨hlast, fun message more hmessage => ?_⟩
  have hsize : (optionOctets e.options).length < 65536 := by
    have hmax := hlast.le_max
    rw [List.length_append, maxSize] at hmax
    omega
  have hoptions := options_optionOctets hsize fun o ho => length_le_optionOctets ho
  have hpayload : ¬e.payload.toNat < 512 := Nat.not_lt.mpr e.payload_ge
  have hhigh : (e.ttl rcode).toNat / 16777216 = rcode.val / 16 := by
    have := e.version.toNat_lt
    have := e.flags.toNat_lt
    rw [toNat_ttl]
    omega
  have hversion : ((e.ttl rcode).toNat / 65536).toUInt8 = e.version := by
    have := e.version.toNat_lt
    have := e.flags.toNat_lt
    rw [toNat_ttl, ← UInt8.toNat_inj, Nat.toUInt8_eq, UInt8.toNat_ofNat']
    omega
  have hflags : (e.ttl rcode).toNat.toUInt16 = e.flags := by
    have := e.flags.toNat_lt
    rw [toNat_ttl, ← UInt16.toNat_inj, Nat.toUInt16_eq, UInt16.toNat_ofNat']
    omega
  simp only [if_true, Cursor.edns, Name.root, ne_eq, not_true_eq_false, if_false, bind, Option.bind,
    hoctets message more hmessage, hoptions, hpayload, hhigh, hversion, hflags, Option.getD_some]
  rfl

end Emit

end DnsFanout
