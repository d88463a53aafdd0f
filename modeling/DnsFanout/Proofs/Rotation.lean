import DnsFanout.Rotation
import Mathlib.Data.List.InsertIdx
import Mathlib.Data.List.Perm.Basic
import Mathlib.Data.List.Range
import Mathlib.Data.List.Rotate

/-! The order of a query: every rotation permutes what it is given, and never looks
at it. The rotations that go round begin one place further with every call. -/

namespace DnsFanout.Rotation

variable {α β : Type}

theorem shuffle_perm (draws : Nat → Nat) (xs : List α) : (shuffle draws xs).Perm xs := by
  induction xs with
  | nil => exact .refl _
  | cons x xs ih =>
    have hlen : draws xs.length % (xs.length + 1) ≤ (shuffle draws xs).length := by
      rw [ih.length_eq]
      exact Nat.le_of_lt_succ (Nat.mod_lt (draws xs.length) (Nat.succ_pos xs.length))
    exact (List.perm_insertIdx x _ hlen).trans (ih.cons x)

theorem shuffle_map (draws : Nat → Nat) (g : α → β) (xs : List α) :
    shuffle draws (xs.map g) = (shuffle draws xs).map g := by
  induction xs with
  | nil => rfl
  | cons x xs ih => simp only [List.map_cons, shuffle, ih, List.length_map, List.map_insertIdx]

theorem shuffle_congr {draws draws' : Nat → Nat} {xs : List α}
    (h : ∀ i < xs.length, draws i = draws' i) : shuffle draws xs = shuffle draws' xs := by
  induction xs with
  | nil => rfl
  | cons x xs ih =>
    have hrest : shuffle draws xs = shuffle draws' xs :=
      ih fun i hi => h i (Nat.lt_succ_of_lt hi)
    rw [shuffle, shuffle, hrest, h xs.length (Nat.lt_succ_self _)]

/-- Every permutation is drawn by some draws. -/
theorem exists_shuffle {xs ys : List α} (h : ys.Perm xs) :
    ∃ draws, shuffle draws xs = ys := by
  induction xs generalizing ys with
  | nil => exact ⟨id, h.eq_nil.symm⟩
  | cons x xs ih =>
    obtain ⟨i, hi, rfl⟩ := List.mem_iff_getElem.mp (h.mem_iff.mpr List.mem_cons_self)
    have hrest : (ys.eraseIdx i).Perm xs :=
      ((List.getElem_cons_eraseIdx_perm hi).trans h).cons_inv
    obtain ⟨draws, hdraws⟩ := ih hrest
    have hlength : ys.length = xs.length + 1 := h.length_eq
    have hlast : i % (xs.length + 1) = i := Nat.mod_eq_of_lt (hlength ▸ hi)
    refine ⟨fun n => if n = xs.length then i else draws n, ?_⟩
    have hsame : shuffle (fun n => if n = xs.length then i else draws n) xs =
        shuffle draws xs := shuffle_congr fun n hn => if_neg (Nat.ne_of_lt hn)
    rw [shuffle, if_pos rfl, hlast, hsame, hdraws, List.insertIdx_eraseIdx_getElem hi]

theorem arrange_perm (rotation : Rotation) (xs : List α) : (rotation.arrange xs).1.Perm xs := by
  cases rotation with
  | random draws => exact shuffle_perm draws xs
  | roundRobin next =>
    by_cases hnil : xs = []
    · simp [arrange, hnil]
    · simp only [arrange, hnil, if_false]
      exact List.perm_append_comm.trans (.of_eq (List.take_append_drop _ xs))
  | sequential => exact .refl _

theorem arrange_map (rotation : Rotation) (g : α → β) (xs : List α) :
    (rotation.arrange (xs.map g)).1 = (rotation.arrange xs).1.map g := by
  cases rotation with
  | random draws => exact shuffle_map draws g xs
  | roundRobin next =>
    by_cases hnil : xs = []
    · simp [arrange, hnil]
    · simp [arrange, hnil]
  | sequential => rfl

theorem arrange_map_snd (rotation : Rotation) (g : α → β) (xs : List α) :
    (rotation.arrange (xs.map g)).2 = (rotation.arrange xs).2 := by
  cases rotation with
  | random draws => simp [arrange]
  | roundRobin next =>
    by_cases hnil : xs = []
    · simp [arrange, hnil]
    · simp [arrange, hnil]
  | sequential => rfl

/-! ### Calls in a row -/

/-- The orders that some calls in a row give for one list. -/
def orders (rotation : Rotation) (xs : List α) : Nat → List (List α)
  | 0 => []
  | n + 1 => (rotation.arrange xs).1 :: (rotation.arrange xs).2.orders xs n

theorem arrange_roundRobin {xs : List α} (hne : xs ≠ []) (next : UInt64) :
    (roundRobin next).arrange xs = (xs.rotate next.toNat, roundRobin (next + 1)) := by
  simp only [arrange, hne, if_false, List.rotate_eq_drop_append_take_mod]

theorem orders_nil (rotation : Rotation) (n : Nat) :
    rotation.orders ([] : List α) n = List.replicate n [] := by
  induction n generalizing rotation with
  | zero => rfl
  | succ n ih =>
    have hnone : (rotation.arrange ([] : List α)).1 = [] := (rotation.arrange_perm []).eq_nil
    rw [orders, hnone, ih, List.replicate_succ]

theorem toNat_succ {next : UInt64} (h : next.toNat + 1 < UInt64.size) :
    (next + 1).toNat = next.toNat + 1 := by
  rw [UInt64.toNat_add]
  exact Nat.mod_eq_of_lt h

/-- Up to its wrap the counter is the place at which an order begins. -/
theorem orders_roundRobin {xs : List α} {n : Nat} {next : UInt64}
    (hwrap : next.toNat + n ≤ UInt64.size) :
    (roundRobin next).orders xs n = (List.range n).map fun i => xs.rotate (next.toNat + i) := by
  by_cases hne : xs = []
  · subst hne
    simp only [orders_nil, List.rotate_nil, List.map_const', List.length_range]
  · induction n generalizing next with
    | zero => rfl
    | succ n ih =>
      rw [orders, arrange_roundRobin hne, List.range_succ_eq_map, List.map_cons, List.map_map]
      congr 1
      by_cases hlast : n = 0
      · subst hlast
        rfl
      · have hnext : (next + 1).toNat = next.toNat + 1 := toNat_succ (by omega)
        rw [ih (by omega), hnext]
        apply List.map_congr_left
        intro i _
        have hplace : next.toNat + 1 + i = next.toNat + i.succ := by omega
        rw [hplace]
        rfl

theorem isChain_orders (xs : List α) {n : Nat} {next : UInt64}
    (hwrap : next.toNat + n ≤ UInt64.size) :
    ((roundRobin next).orders xs n).IsChain fun before after => after = before.rotate 1 := by
  rw [orders_roundRobin hwrap, List.isChain_map, List.isChain_range]
  intro i _
  rw [List.rotate_rotate]
  rfl

/-- As many calls as there are elements put every element first once. -/
theorem heads_orders {xs : List α} {next : UInt64}
    (hwrap : next.toNat + xs.length ≤ UInt64.size) :
    ((roundRobin next).orders xs xs.length).map List.head? =
      (xs.rotate next.toNat).map some := by
  rw [orders_roundRobin hwrap, List.map_map]
  apply List.ext_getElem?
  intro i
  by_cases hi : i < xs.length
  · have hfirst : (xs.rotate (next.toNat + i)).head? = (xs.rotate next.toNat)[i]? := by
      rw [← List.rotate_rotate, List.head?_rotate (by rwa [List.length_rotate])]
    simp [hi, hfirst]
  · simp [hi]

end DnsFanout.Rotation
