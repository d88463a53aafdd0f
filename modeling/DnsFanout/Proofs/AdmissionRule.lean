import DnsFanout.Proofs.ZoneSpelling

/-! The rule by which names are admitted: a name of the zone, unless an excluded zone covers it;
the apex of the zone is never excluded. What is admitted hangs on the labels alone, in any case of
the letters, and on which zones are excluded, not on how they are listed. -/

namespace DnsFanout.Admission

open Name

variable {a b : Admission} {n m : Name}

theorem admits_iff (a : Admission) (n : Name) : a.admits n = true ↔
    a.zone.Covers n ∧ (n.Same a.zone ∨ ∀ z ∈ a.excluded, ¬ z.Covers n) := by
  rw [admits, Bool.and_eq_true, isZoneOf_iff]
  refine and_congr_right fun hcovers => ?_
  -- the comparison with the apex is no equality of names but below the zone
  rw [Bool.or_eq_true, agrees_iff_of_covers hcovers, Bool.not_eq_true', List.any_eq_false]
  simp only [isZoneOf_iff]

/-- The zones are the same; those excluded may be listed in another order, and repeated. -/
structure Alike (a b : Admission) : Prop where
  zone : a.zone.Same b.zone
  left : ∀ z ∈ a.excluded, ∃ y ∈ b.excluded, z.Same y
  right : ∀ y ∈ b.excluded, ∃ z ∈ a.excluded, y.Same z

theorem Alike.symm (h : a.Alike b) : b.Alike a := ⟨h.zone.symm, h.right, h.left⟩

theorem Alike.admits_of_admits (h : a.Alike b) (hname : n.Same m) (hadmits : a.admits n = true) :
    b.admits m = true := by
  rw [admits_iff] at hadmits ⊢
  obtain ⟨hcovers, hrule⟩ := hadmits
  refine ⟨hcovers.congr h.zone hname, hrule.imp (fun hapex => ?_) fun hopen y hy hcovered => ?_⟩
  · exact hname.symm.trans (hapex.trans h.zone)
  · obtain ⟨z, hz, hsame⟩ := h.right y hy
    exact hopen z hz (hcovered.congr hsame hname.symm)

theorem Alike.admits (h : a.Alike b) (hname : n.Same m) : a.admits n = b.admits m :=
  Bool.eq_iff_iff.mpr ⟨h.admits_of_admits hname, h.symm.admits_of_admits hname.symm⟩

variable {zone zone' : String} {excluded excluded' : List String}

theorem read_eq_ok_iff : read zone excluded = .ok a ↔ readZone zone = .ok a.zone ∧
    List.Forall₂ (fun text z => readZone text = .ok z) excluded a.excluded := by
  unfold read
  rw [bind_eq_ok]
  simp only [bind_eq_ok, mapM_eq_ok_iff]
  constructor
  · rintro ⟨zones, hzones, z, hz, h⟩
    cases h
    exact ⟨hz, hzones⟩
  · rintro ⟨hz, hzones⟩
    exact ⟨a.excluded, hzones, a.zone, hz, rfl⟩

/-- Zones that are the same by their texts are the same as names. -/
theorem exists_same_of_reads {zones zones' : List Name}
    (hs : List.Forall₂ (fun text z => readZone text = .ok z) excluded zones)
    (ht : List.Forall₂ (fun text z => readZone text = .ok z) excluded' zones')
    (h : ∀ s ∈ excluded, ∃ t ∈ excluded', SameZone s t) : ∀ z ∈ zones, ∃ y ∈ zones', z.Same y := by
  intro z hz
  obtain ⟨s, hmem, hreads⟩ := exists_of_mem_right hs z hz
  obtain ⟨t, hmem', z', y', hz', hy', hsame⟩ := h s hmem
  obtain ⟨y, hy, hreadt⟩ := exists_of_mem_left ht t hmem'
  obtain rfl : z = z' := Except.ok.inj (hreads.symm.trans hz')
  obtain rfl : y = y' := Except.ok.inj (hreadt.symm.trans hy')
  exact ⟨y, hy, hsame⟩

theorem exists_read_alike (h : read zone excluded = .ok a) (hzone : SameZone zone zone')
    (hleft : ∀ s ∈ excluded, ∃ t ∈ excluded', SameZone s t)
    (hright : ∀ t ∈ excluded', ∃ s ∈ excluded, SameZone t s) :
    ∃ b, read zone' excluded' = .ok b ∧ a.Alike b := by
  obtain ⟨hread, hexcluded⟩ := read_eq_ok_iff.mp h
  obtain ⟨z, z', hz, hz', hsame⟩ := hzone
  obtain rfl : a.zone = z := Except.ok.inj (hread.symm.trans hz)
  obtain ⟨zones, hzones⟩ : ∃ zones, excluded'.mapM readZone = .ok zones := by
    refine mapM_isOk_iff.mpr fun t ht => ?_
    obtain ⟨-, -, y, -, hy, -⟩ := hright t ht
    exact ⟨y, hy⟩
  rw [mapM_eq_ok_iff] at hzones
  exact ⟨⟨z', zones⟩, read_eq_ok_iff.mpr ⟨hz', hzones⟩, hsame,
    exists_same_of_reads hexcluded hzones hleft, exists_same_of_reads hzones hexcluded hright⟩

/-- How the texts of the zones decide on names. -/
structure Decides (a : Admission) (zone : String) (excluded : List String) : Prop where
  reads_zone : readZone zone = .ok a.zone
  reads_excluded : List.Forall₂ (fun text z => readZone text = .ok z) excluded a.excluded
  admits_iff : ∀ n, a.admits n = true ↔
    a.zone.Covers n ∧ (n.Same a.zone ∨ ∀ z ∈ a.excluded, ¬ z.Covers n)
  /-- The order of the excluded zones counts for nothing, nor does it how often each is listed. -/
  unordered : ∀ zone' excluded', SameZone zone zone' →
    (∀ s ∈ excluded, ∃ t ∈ excluded', SameZone s t) →
    (∀ t ∈ excluded', ∃ s ∈ excluded, SameZone t s) →
    ∃ b, read zone' excluded' = .ok b ∧ ∀ n m, n.Same m → a.admits n = b.admits m
  respelled : ∀ s ∈ zone :: excluded, ∀ t, Respelled s t → SameZone s t

theorem decides_of_read (h : read zone excluded = .ok a) : a.Decides zone excluded := by
  obtain ⟨hzone, hexcluded⟩ := read_eq_ok_iff.mp h
  refine ⟨hzone, hexcluded, a.admits_iff, fun zone' excluded' hsame hleft hright => ?_, ?_⟩
  · obtain ⟨b, hread, halike⟩ := exists_read_alike h hsame hleft hright
    exact ⟨b, hread, fun _ _ => halike.admits⟩
  · refine List.forall_mem_cons.mpr ⟨fun t ht => ht.sameZone hzone, fun s hs t ht => ?_⟩
    obtain ⟨z, -, hz⟩ := exists_of_mem_left hexcluded s hs
    exact ht.sameZone hz

end DnsFanout.Admission

namespace DnsFanout.Rehearsal

open Admission

/-- The zone `*.org`, its apex excluded. -/
def starred : Admission where
  zone := ⟨[starLabel, orgLabel], true, by decide⟩
  excluded := [⟨[starLabel, capitalLabel], true, by decide⟩]

/-- The apex `*.org` is admitted, a name below it is not, and neither is `org`, which the
comparison with the apex does not tell from it. -/
theorem starred_decides :
    Admission.read "*.org" ["*.ORG."] = .ok starred ∧
    starred.admits ⟨[starLabel, capitalLabel], true, by decide⟩ = true ∧
    starred.admits ⟨[orgLabel, starLabel, orgLabel], true, by decide⟩ = false ∧
    Name.agrees ⟨[orgLabel], true, by decide⟩ starred.zone = true ∧
    starred.admits ⟨[orgLabel], true, by decide⟩ = false ∧
    ∃ b, Admission.read "*.ORG" ["*.org.", "*.ORG"] = .ok b ∧
      ∀ n m : Name, n.Same m → starred.admits n = b.admits m := by
  have hread : Admission.read "*.org" ["*.ORG."] = .ok starred := rfl
  have hdecides := decides_of_read hread
  have hzone : Name.SameZone "*.org" "*.ORG" :=
    hdecides.respelled _ List.mem_cons_self _ (.letters (by decide))
  have hcase : Name.SameZone "*.ORG." "*.org." :=
    hdecides.respelled _ (by simp) _ (.letters (by decide))
  have hdot : Name.SameZone "*.ORG." "*.ORG" :=
    hdecides.respelled _ (by simp) _ (.undotted ⟨by decide, by decide, by decide⟩)
  have hcapital : (Name.mk [starLabel, capitalLabel] true (by decide)).Same starred.zone :=
    Name.folded_eq_iff.mp (by decide)
  refine ⟨hread, (hdecides.admits_iff _).mpr ⟨hcapital.symm.covers, .inl hcapital⟩, by decide,
    by decide, by decide, hdecides.unordered _ _ hzone ?_ ?_⟩
  · simpa using .inl hcase
  · simpa using ⟨hcase.symm, hdot.symm⟩

end DnsFanout.Rehearsal
