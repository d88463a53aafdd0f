import DnsFanout.Proofs.Wire.Compression

/-! What the encoder writes is what the decoder reads. A step of the one answers a step of
the other, wherever in a message they are and whatever follows. -/

namespace DnsFanout.Emit

/-! ### The octets of a step -/

theorem octets_eq_some {bytes out : Bytes} {w w' : Written} (h : octets bytes w = some (out, w')) :
    out = bytes ∧ w' = { w with offset := w.offset + bytes.length } ∧
      w.offset + bytes.length ≤ maxSize := by
  simp only [octets, Option.ite_none_right_eq_some, Option.some.injEq, Prod.mk.injEq] at h
  exact ⟨h.2.1.symm, h.2.2.symm, h.1⟩

theorem append_eq_some {first second : Emit} {out : Bytes} {w w' : Written}
    (h : (first ++ second) w = some (out, w')) :
    ∃ x middle y, first w = some (x, middle) ∧ second middle = some (y, w') ∧ out = x ++ y := by
  obtain ⟨⟨x, middle⟩, hx, h⟩ := Option.bind_eq_some_iff.mp h
  obtain ⟨⟨y, last⟩, hy, h⟩ := Option.bind_eq_some_iff.mp h
  cases h
  exact ⟨x, middle, y, hx, hy, rfl⟩

theorem append_assoc (first second third : Emit) :
    first ++ second ++ third = first ++ (second ++ third) := by
  funext w
  show (first.andThen second).andThen third w = first.andThen (second.andThen third) w
  unfold andThen
  cases first w with
  | none => rfl
  | some x =>
    obtain ⟨x, w⟩ := x
    cases hy : second w with
    | none => simp [hy]
    | some y =>
      obtain ⟨y, w⟩ := y
      cases hz : third w <;> simp [hy, hz]

theorem sized_eq_some {body : Emit} {out : Bytes} {w w' : Written}
    (h : sized body w = some (out, w')) :
    ∃ x, w.offset + 2 ≤ maxSize ∧ body { w with offset := w.offset + 2 } = some (x, w') ∧
      out = word16 x.length ++ x := by
  obtain ⟨⟨_, reserved⟩, hreserved, hrest⟩ := Option.bind_eq_some_iff.mp h
  obtain ⟨⟨x, last⟩, hx, hout⟩ := Option.bind_eq_some_iff.mp hrest
  obtain ⟨-, rfl, hroom⟩ := octets_eq_some hreserved
  cases hout
  exact ⟨x, hroom, hx, rfl⟩

theorem name_eq_some {n : Name} {out : Bytes} {w w' : Written} (h : name n w = some (out, w')) :
    w.offset + (n.labels.flatMap Label.wire).length ≤ maxSize ∧ w'.offset ≤ maxSize ∧
      compress (w.offset + (n.labels.flatMap Label.wire).length < 0x3FFF) n.labels w =
        (out, w') := by
  simp only [name] at h
  split at h
  · cases h
  · next hroom =>
    split at h
    · cases h
    · next hend =>
      obtain ⟨rfl, rfl⟩ := Prod.mk.inj (Option.some.inj h)
      exact ⟨Nat.le_of_not_lt hroom, Nat.le_of_not_lt hend, rfl⟩

/-! ### Reading -/

/-- What the step writes is read as `x` by a step of the decoder, which may be told how many
octets they are. -/
structure SizedAs {α : Type} (e : Emit) (take : Nat → Bytes → Take α) (x : α) : Prop where
  run : ∀ {front w bytes w'}, w.Matches front → e w = some (bytes, w') →
    w'.Matches (front ++ bytes) ∧ ∀ message more, message = front ++ bytes ++ more →
      take bytes.length message ⟨front.length, bytes ++ more⟩ =
        some (x, ⟨front.length + bytes.length, more⟩)

/-- What the step writes is read as `x`. -/
abbrev ReadAs {α : Type} (e : Emit) (take : Bytes → Take α) (x : α) : Prop :=
  e.SizedAs (fun _ => take) x

section

variable {α β : Type} {e e' : Emit} {a : α} {b : β}

theorem readAs_octets {bytes : Bytes} {take : Bytes → Take α}
    (h : ∀ message position more, take message ⟨position, bytes ++ more⟩ =
      some (a, ⟨position + bytes.length, more⟩)) : (octets bytes).ReadAs take a := by
  refine ⟨fun {front w out w'} hw he => ?_⟩
  obtain ⟨rfl, rfl, hroom⟩ := octets_eq_some he
  rw [hw.offset, ← List.length_append] at hroom
  refine ⟨⟨?_, hroom, fun e he => (hw.ending e he).append out⟩, fun message more _ => h ..⟩
  rw [hw.offset, List.length_append]

theorem ReadAs.append {take : Bytes → Take α} {next : Bytes → α × Cursor → Option (β × Cursor)}
    (h : e.ReadAs take a) (h' : e'.ReadAs (fun message c => next message (a, c)) b) :
    (e ++ e').ReadAs (fun message c => take message c >>= next message) b := by
  refine ⟨fun {front w out w'} hw he => ?_⟩
  obtain ⟨x, middle, y, hx, hy, rfl⟩ := append_eq_some he
  obtain ⟨hmiddle, hreadx⟩ := h.run hw hx
  obtain ⟨hlast, hready⟩ := h'.run hmiddle hy
  rw [List.append_assoc] at hlast
  refine ⟨hlast, fun message more hmessage => ?_⟩
  have hfirst := hreadx message (y ++ more) (by simp only [hmessage, List.append_assoc])
  have hsecond := hready message more (by simp only [hmessage, List.append_assoc])
  simp only [List.length_append, Nat.add_assoc] at hsecond ⊢
  simp only [List.append_assoc, hfirst, bind, Option.bind_some, hsecond]

/-- What has been read may be put together in the end. -/
theorem ReadAs.finish {take : Bytes → Take α} {next : Bytes → α × Cursor → Option (β × Cursor)}
    (h : e.ReadAs take a) (hnext : ∀ message c, next message (a, c) = some (b, c)) :
    e.ReadAs (fun message c => take message c >>= next message) b := by
  refine ⟨fun {front w out w'} hw he => ?_⟩
  obtain ⟨hlast, hread⟩ := h.run hw he
  refine ⟨hlast, fun message more hmessage => ?_⟩
  simp [hread message more hmessage, hnext]

end

theorem readAs_word16 (n : UInt16) :
    (octets (word16 n.toNat)).ReadAs (fun _ => Cursor.word16) n :=
  readAs_octets fun _ _ _ => congrArg (fun n => some (n, _)) (ofWord16_word16 n)

theorem readAs_word32 (n : UInt32) :
    (octets (word32 n.toNat)).ReadAs (fun _ => Cursor.word32) n :=
  readAs_octets fun _ _ _ => congrArg (fun n => some (n, _)) (ofWord32_word32 n)

/-- A name is read with the final dot. -/
theorem readAs_name {n : Name} (h : n.absolute = true) : (name n).ReadAs Cursor.name n := by
  refine ⟨fun {front w out w'} hw he => ?_⟩
  obtain ⟨-, hend, hout⟩ := name_eq_some he
  have hpart : Part front [] n.labels w out w' := by
    obtain ⟨rfl, rfl⟩ := Prod.mk.inj hout
    exact part_compress (by simpa using hw.offset) (by simp)
      fun key place _ hplace => hw.ending _ (mem_of_lookup hplace)
  have hoffset : w'.offset = (front ++ out).length := by
    rw [hpart.offset, hw.offset, List.length_append]
  refine ⟨⟨hoffset, hoffset ▸ hend, fun e he => ?_⟩, fun message more hmessage => ?_⟩
  · rcases hpart.ending e he with he | hspells
    · exact (hw.ending e he).append out
    · simpa using hspells
  · have hread := hpart.read message more front.length none (by simpa using hmessage)
      (Nat.le_refl _) nofun
    rw [hw.offset] at hread
    obtain ⟨labels, absolute, hsize⟩ := n
    cases h
    simp [Cursor.name, hread, Name.ofLabels?, hsize]

theorem name_ne_nil {n : Name} {out : Bytes} {w w' : Written} (h : name n w = some (out, w')) :
    out ≠ [] := by
  obtain ⟨-, -, hout⟩ := name_eq_some h
  have hne := compress_ne_nil (w.offset + (n.labels.flatMap Label.wire).length < 0x3FFF) n.labels w
  rwa [hout] at hne

end DnsFanout.Emit
