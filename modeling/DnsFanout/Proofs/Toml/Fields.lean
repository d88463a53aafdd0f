import DnsFanout.Proofs.Toml.Sections
import DnsFanout.Toml.Fields

/-! The fields of a section are what its lines say, whatever their defaults. -/

namespace DnsFanout.Toml

namespace Value

theorem fields?_of_forall {names : List String} {entries : Table}
    (h : ∀ x ∈ entries, x.1 ∈ names) (origin : Origin) :
    fields? names (.table origin entries) = some entries := by
  rw [fields?, List.filter_eq_nil_iff.mpr]
  · rfl
  · intro x hx
    simp [h x hx]

theorem natural?_of_lt {n bound : Nat} (h : n < bound) : natural? bound (.integer n) = some n := by
  have hrange : (0 : Int) ≤ n ∧ (n : Int) < bound := by omega
  rw [natural?, if_pos hrange, Int.toNat_natCast]

theorem word16?_toNat (n : UInt16) : word16? (.integer n.toNat) = some n := by
  simp [word16?, natural?_of_lt n.toNat_lt]

theorem word32?_toNat (n : UInt32) : word32? (.integer n.toNat) = some n := by
  simp [word32?, natural?_of_lt n.toNat_lt]

theorem word64?_toNat (n : UInt64) : word64? (.integer n.toNat) = some n := by
  simp [word64?, natural?_of_lt n.toNat_lt]

theorem strings?_map_string (texts : List String) (lines : Bool) :
    strings? (.array lines (texts.map .string)) = some texts := by
  induction texts with
  | nil => rfl
  | cons text texts ih =>
    rw [strings?] at ih ⊢
    rw [List.map_cons, List.mapM_cons, ih]
    rfl

end Value

theorem Table.lookup_of_mem {t : Table} (hnodup : (t.map Prod.fst).Nodup) {key : String} {v : Value}
    (h : (key, v) ∈ t) : t.lookup key = some v := by
  obtain ⟨front, tail, rfl⟩ := List.append_of_mem h
  refine List.lookup_eq_some_iff.mpr ⟨front, tail, rfl, fun entry hentry => bne_iff_ne.mpr ?_⟩
  exact fun heq => Table.not_mem_of_nodup hnodup (heq ▸ List.mem_map_of_mem hentry)

namespace Section

variable (x : Section) {α : Type} {key : String}

theorem lookup_line {l : Line} (h : l ∈ x.lines) : x.table.lookup l.key = some l.value :=
  Table.lookup_of_mem (x.keys_table ▸ x.nodup) (List.mem_map.mpr ⟨l, h, rfl⟩)

/-- A line of a section is what the field of its key is read from. -/
theorem field_line {l : Line} (h : l ∈ x.lines) {read : Value → Option α} {a : α}
    (hread : read l.value = some a) (default : α) : x.table.field l.key read default = some a := by
  rw [Table.field, x.lookup_line h]
  exact hread

theorem field_absent (h : key ∉ x.lines.map Line.key) (read : Value → Option α) (default : α) :
    x.table.field key read default = some default := by
  have hlookup : x.table.lookup key = none := by
    refine List.lookup_eq_none_iff.mpr fun entry hentry => ?_
    obtain ⟨l, hl, rfl⟩ := List.mem_map.mp hentry
    exact bne_iff_ne.mpr fun heq => h (heq ▸ List.mem_map_of_mem hl)
  rw [Table.field, hlookup]

theorem fields?_table {names : List String} (h : ∀ l ∈ x.lines, l.key ∈ names) :
    Value.fields? names (.table .header x.table) = some x.table := by
  refine Value.fields?_of_forall (fun entry hentry => ?_) .header
  obtain ⟨l, hl, rfl⟩ := List.mem_map.mp hentry
  exact h l hl

end Section

namespace Line

def ofText (key text : String) (bare : isBare key = true) : Line :=
  ⟨key, writeText text, .string text, bare, reads_text text⟩

def ofTexts (key : String) (texts : List String) (bare : isBare key = true) : Line :=
  ⟨key, writeTexts texts, .array false (texts.map .string), bare, reads_texts texts⟩

def ofNumber (key : String) (n : Nat) (bare : isBare key = true) : Line :=
  ⟨key, writeNumber n, .integer n, bare, reads_number n⟩

def ofBoolean (key : String) (b : Bool) (bare : isBare key = true) : Line :=
  ⟨key, writeBoolean b, .boolean b, bare, reads_boolean b⟩

end Line

end DnsFanout.Toml
