import DnsFanout.Proofs.Wire.Record

/-! The sections of a message. What is written of a section is read item by item, up to the
first item that did not fit. -/

namespace DnsFanout

namespace Emit

theorem record_ne_nil {r : Record} {w w' : Written} {out : Bytes}
    (h : record r w = some (out, w')) : out ≠ [] := by
  simp only [record, append_assoc] at h
  exact append_ne_nil name_ne_nil h

theorem edns_ne_nil {rcode : ResponseCode} {e : Edns} {w w' : Written} {out : Bytes}
    (h : edns rcode e w = some (out, w')) : out ≠ [] := by
  simp only [edns, append_assoc] at h
  exact append_ne_nil name_ne_nil h

theorem question_ne_nil {q : Question} {w w' : Written} {out : Bytes}
    (h : question q w = some (out, w')) : out ≠ [] := by
  simp only [question, append_assoc] at h
  exact append_ne_nil name_ne_nil h

/-- What is written of a section after `front` is read as its first items. -/
structure Section.Holds {α : Type} (s : Section) (front : Bytes) (take : Bytes → Take α)
    (xs : List α) : Prop where
  matching : s.written.Matches (front ++ s.bytes)
  complete_iff : s.complete = true ↔ s.count = xs.length
  count_le : s.count ≤ xs.length
  count_le_bytes : s.count ≤ s.bytes.length
  read : ∀ message more, message = front ++ s.bytes ++ more →
    Cursor.repeated (take message) s.count ⟨front.length, s.bytes ++ more⟩ =
      some (xs.take s.count, ⟨front.length + s.bytes.length, more⟩)

theorem holds_upTo {α β : Type} {emit : β → Emit} {value : β → α} {take : Bytes → Take α}
    {xs : List β} {front : Bytes} {w : Written} (hw : w.Matches front)
    (hread : ∀ x ∈ xs, (emit x).ReadAs take (value x))
    (hne : ∀ {x w out w'}, emit x w = some (out, w') → out ≠ []) :
    (upTo (xs.map emit) w).Holds front take (xs.map value) := by
  induction xs generalizing front w with
  | nil => exact ⟨by simpa [upTo] using hw, by simp [upTo], by simp [upTo], by simp [upTo],
      fun _ _ _ => rfl⟩
  | cons x xs ih =>
    cases he : emit x w with
    | none =>
      simp only [List.map_cons, upTo, he]
      exact ⟨by simpa using hw, by simp, by simp, by simp, fun _ _ _ => rfl⟩
    | some written =>
      obtain ⟨out, w'⟩ := written
      obtain ⟨hnext, hfirst⟩ := (hread x List.mem_cons_self).run hw he
      have hrest := ih hnext fun y hy => hread y (List.mem_cons_of_mem _ hy)
      have hpos : 0 < out.length := List.length_pos_iff.mpr (hne he)
      simp only [List.map_cons, upTo, he]
      constructor
      case matching => simpa only [List.append_assoc] using hrest.matching
      case complete_iff => simpa using hrest.complete_iff
      case count_le => simpa using hrest.count_le
      case count_le_bytes =>
        have := hrest.count_le_bytes
        simp only [List.length_append]
        omega
      case read =>
        intro message more hmessage
        have hhead := hfirst message ((upTo (xs.map emit) w').bytes ++ more)
          (by simp only [hmessage, List.append_assoc])
        have htail := hrest.read message more (by simp only [hmessage, List.append_assoc])
        rw [List.length_append] at htail
        simp [Cursor.repeated, List.append_assoc, hhead, htail, Nat.add_assoc]

theorem readAs_questions {qs : List Question} (h : ∀ q ∈ qs, q.name.absolute = true) :
    (questions qs).ReadAs
      (fun message => Cursor.repeated (Cursor.question message) qs.length) qs := by
  induction qs with
  | nil => exact readAs_octets fun _ _ _ => rfl
  | cons q qs ih =>
    exact (readAs_question (h q List.mem_cons_self)).append <|
      (ih fun q hq => h q (List.mem_cons_of_mem _ hq)).finish fun _ _ => rfl

theorem length_le_questions {qs : List Question} {w w' : Written} {out : Bytes}
    (h : questions qs w = some (out, w')) : qs.length ≤ out.length := by
  induction qs generalizing w out with
  | nil => exact Nat.zero_le _
  | cons q qs ih =>
    obtain ⟨x, middle, y, hx, hy, rfl⟩ := append_eq_some h
    have hpos : 0 < x.length := List.length_pos_iff.mpr (question_ne_nil hx)
    have := ih hy
    rw [List.length_cons, List.length_append]
    omega

end Emit

namespace Cursor

variable {message : Bytes}

/-- The records of the additional section in front of the extension record. -/
theorem additional_append {n : Nat} {c c' : Cursor} {rs : List Record}
    (h : repeated (looseRecord message) n c = some (rs, c')) (found : Option (Nat × Edns))
    (k : Nat) :
    additional message found (n + k) c =
      (additional message found k c').map fun x => ((rs ++ x.1.1, x.1.2), x.2) := by
  induction n generalizing c rs with
  | zero =>
    cases h
    simp
  | succ n ih =>
    obtain ⟨⟨r, middle⟩, hr, hrest⟩ := Option.bind_eq_some_iff.mp h
    obtain ⟨⟨more, last⟩, hmore, hlast⟩ := Option.bind_eq_some_iff.mp hrest
    cases hlast
    obtain ⟨⟨head, start⟩, hhead, hbody⟩ := Option.bind_eq_some_iff.mp hr
    dsimp only at hbody
    split at hbody
    · cases hbody
    · next hplain =>
      rw [Nat.succ_add, additional, hhead]
      simp only [bind, Option.bind_some, if_neg hplain, hbody, ih hmore]
      cases additional message found k c' <;> rfl

theorem additional_extension {n : Nat} {c c' : Cursor} {es : List (Nat × Edns)} (hn : n ≤ 1)
    (h : repeated (extensionRecord message) n c = some (es, c')) :
    additional message none n c = some (([], es.head?), c') := by
  cases n with
  | zero =>
    cases h
    rfl
  | succ n =>
    obtain rfl : n = 0 := by omega
    obtain ⟨⟨e, middle⟩, he, hrest⟩ := Option.bind_eq_some_iff.mp h
    cases hrest
    obtain ⟨⟨head, start⟩, hhead, hbody⟩ := Option.bind_eq_some_iff.mp he
    dsimp only at hbody
    split at hbody
    · next hopt =>
      rw [additional, hhead]
      simp only [bind, Option.bind_some, if_pos hopt, hbody]
      rfl
    · cases hbody

end Cursor

end DnsFanout
