import DnsFanout.Name.Basic
import Mathlib.Data.List.Forall2

/-! Two comparisons of names. Names are the same if their labels are, one by one; a name agrees
with another if their depths are equal and one is a zone of the other. As a leading `*` has no
depth, a name also agrees with the wildcard right below it. -/

namespace DnsFanout

/-- The octets are equal, or they are the same letter. -/
def SameOctet (a b : UInt8) : Prop :=
  a = b ∨ (65 ≤ a ∧ a ≤ 90 ∧ b = a + 32) ∨ (65 ≤ b ∧ b ≤ 90 ∧ a = b + 32)

namespace Label

variable {l m : Label}

theorem lower_eq_iff {a b : UInt8} : lower a = lower b ↔ SameOctet a b := by
  have ha := a.toNat_lt
  have hb := b.toNat_lt
  unfold lower SameOctet
  simp only [← UInt8.toNat_inj, UInt8.le_iff_toNat_le]
  split <;> split <;> simp only [UInt8.toNat_add, UInt8.reduceToNat] at * <;> omega

def Same (l m : Label) : Prop := List.Forall₂ SameOctet l.bytes m.bytes

theorem folded_eq_iff : l.folded = m.folded ↔ l.Same m := by
  unfold folded Same
  rw [← List.forall₂_eq_eq_eq, List.forall₂_map_left_iff, List.forall₂_map_right_iff]
  simp only [lower_eq_iff]

theorem Same.isWildcard (h : l.Same m) : l.isWildcard = m.isWildcard := by
  have hstar {a b : UInt8} (h : SameOctet a b) : a = 42 ↔ b = 42 := by
    unfold SameOctet at h
    simp only [← UInt8.toNat_inj, UInt8.le_iff_toNat_le, UInt8.toNat_add, UInt8.reduceToNat] at *
    omega
  rw [Bool.eq_iff_iff, Label.isWildcard, Label.isWildcard, beq_iff_eq, beq_iff_eq]
  unfold Same at h
  constructor
  · intro hl
    rw [hl, List.forall₂_cons_left_iff] at h
    obtain ⟨b, rest, hb, hrest, hm⟩ := h
    rw [hm, (hstar hb).mp rfl, List.forall₂_nil_left_iff.mp hrest]
  · intro hm
    rw [hm, List.forall₂_cons_right_iff] at h
    obtain ⟨a, rest, ha, hrest, hl⟩ := h
    rw [hl, (hstar ha).mpr rfl, List.forall₂_nil_right_iff.mp hrest]

end Label

namespace Name

variable {a b c zone name : Name}

/-- The labels are the same, one by one; a final dot counts for nothing. -/
def Same (a b : Name) : Prop := List.Forall₂ Label.Same a.labels b.labels

/-- The last labels of the name are those of the zone. -/
def Covers (zone name : Name) : Prop :=
  ∃ front back, name.labels = front ++ back ∧ List.Forall₂ Label.Same zone.labels back

theorem map_folded_eq_iff {ls ms : List Label} :
    ls.map Label.folded = ms.map Label.folded ↔ List.Forall₂ Label.Same ls ms := by
  rw [← List.forall₂_eq_eq_eq, List.forall₂_map_left_iff, List.forall₂_map_right_iff]
  simp only [Label.folded_eq_iff]

theorem folded_eq_iff : a.folded = b.folded ↔ a.Same b := map_folded_eq_iff

theorem Same.refl (a : Name) : a.Same a := folded_eq_iff.mp rfl

theorem Same.symm (h : a.Same b) : b.Same a := folded_eq_iff.mp (folded_eq_iff.mpr h).symm

theorem Same.trans (h : a.Same b) (h' : b.Same c) : a.Same c :=
  folded_eq_iff.mp ((folded_eq_iff.mpr h).trans (folded_eq_iff.mpr h'))

theorem isZoneOf_iff : zone.isZoneOf name = true ↔ zone.Covers name := by
  rw [isZoneOf, List.isSuffixOf_iff_suffix]
  constructor
  · rintro ⟨front, hfront⟩
    obtain ⟨above, below, hname, -, hbelow⟩ := List.map_eq_append_iff.mp hfront.symm
    exact ⟨above, below, hname, map_folded_eq_iff.mp hbelow.symm⟩
  · rintro ⟨front, back, hname, hback⟩
    refine ⟨front.map Label.folded, ?_⟩
    show front.map Label.folded ++ zone.labels.map Label.folded = name.labels.map Label.folded
    rw [hname, List.map_append, map_folded_eq_iff.mpr hback]

theorem Covers.length_le (h : zone.Covers name) : zone.labels.length ≤ name.labels.length := by
  obtain ⟨front, back, hname, hback⟩ := h
  rw [hname, List.length_append, hback.length_eq]
  exact Nat.le_add_left _ _

theorem Same.covers (h : zone.Same name) : zone.Covers name := ⟨[], name.labels, rfl, h⟩

theorem Covers.congr {zone' name' : Name} (hzone : zone.Same zone') (hname : name.Same name')
    (h : zone.Covers name) : zone'.Covers name' := by
  rw [← isZoneOf_iff, isZoneOf] at h ⊢
  rwa [← folded_eq_iff.mpr hzone, ← folded_eq_iff.mpr hname]

/-- The first label is `*`. -/
def starred (n : Name) : Bool := n.labels.head?.any Label.isWildcard

theorem depth_add_starred (n : Name) : n.depth + n.starred.toNat = n.labels.length := by
  unfold depth starred
  cases n.labels with
  | nil => rfl
  | cons l rest => cases h : l.isWildcard <;> simp [h]

theorem Same.starred (h : a.Same b) : a.starred = b.starred := by
  unfold Same at h
  unfold Name.starred
  generalize a.labels = ls, b.labels = ms at h
  cases h with
  | nil => rfl
  | cons hl hrest => exact hl.isWildcard

/-- The other name is this one below a `*`, and this one has no `*` of its own. -/
def Unstars (a b : Name) : Prop :=
  a.starred = false ∧
    ∃ star rest, b.labels = star :: rest ∧ star.isWildcard = true ∧
      List.Forall₂ Label.Same a.labels rest

theorem Unstars.starred (h : a.Unstars b) : b.starred = true := by
  obtain ⟨-, star, rest, hname, hstar, -⟩ := h
  simp [Name.starred, hname, hstar]

theorem Unstars.not_same (h : a.Unstars b) : ¬ a.Same b := by
  intro hsame
  have hstarred := hsame.starred
  rw [h.1, h.starred] at hstarred
  cases hstarred

/-- Names that agree are the same, but for a `*` in front of the second. -/
theorem agrees_iff : a.agrees b = true ↔ a.Same b ∨ a.Unstars b := by
  rw [agrees, Bool.and_eq_true, beq_iff_eq, isZoneOf_iff]
  have ha := a.depth_add_starred
  have hb := b.depth_add_starred
  constructor
  · rintro ⟨hdepth, front, back, hname, hback⟩
    have hlength : b.labels.length = front.length + a.labels.length := by
      rw [hname, List.length_append, hback.length_eq]
    have hstars := b.starred.toNat_le
    match front with
    | [] => exact .inl (by rwa [Same, hname])
    | [star] =>
      -- the depths are equal, so the label more is the one that does not count
      rw [List.length_singleton] at hlength
      have hone : a.starred.toNat = 0 ∧ b.starred.toNat = 1 := by omega
      refine .inr ⟨by simpa using hone.1, star, back, hname, ?_, hback⟩
      simpa [starred, hname] using hone.2
    | first :: second :: more =>
      simp only [List.length_cons] at hlength
      omega
  · rintro (hsame | hunstars)
    · rw [hsame.starred] at ha
      exact ⟨by have := List.Forall₂.length_eq hsame; omega, hsame.covers⟩
    · rw [hunstars.1, Bool.toNat_false] at ha
      rw [hunstars.starred, Bool.toNat_true] at hb
      obtain ⟨-, star, rest, hname, -, hrest⟩ := hunstars
      refine ⟨?_, [star], rest, hname, hrest⟩
      rw [hname, List.length_cons, ← hrest.length_eq] at hb
      omega

/-- Below a zone that covers it, a name agrees with the zone only if it is the zone. -/
theorem agrees_iff_of_covers (h : zone.Covers name) : name.agrees zone = true ↔ name.Same zone := by
  rw [agrees_iff, or_iff_left]
  rintro ⟨-, star, rest, hzone, -, hrest⟩
  have hle := h.length_le
  rw [hzone, List.length_cons, hrest.length_eq] at hle
  omega

end Name

namespace Rehearsal

/-! Labels to try the comparisons with. -/

def orgLabel : Label := ⟨[111, 114, 103], by decide, by decide⟩

def capitalLabel : Label := ⟨[79, 82, 71], by decide, by decide⟩

def starLabel : Label := ⟨[42], by decide, by decide⟩

end Rehearsal

end DnsFanout
