import DnsFanout.Net.Unreachable
import DnsFanout.Proofs.ZoneText
import DnsFanout.Service
import Mathlib.Control.Basic

/-! What becomes of settings that have passed the checks. Their endpoints are resolvers, each
of them registered in its place; their zones have to be names as well, which the checks leave
open. -/

namespace DnsFanout

namespace ForwardSettings

theorem check_eq_ok {s : ForwardSettings} (h : s.check = .ok ()) :
    s.endpoints ≠ [] ∧ (∀ zone ∈ s.zone :: s.excluded, checkZone zone = .ok ()) ∧
      ∃ endpoints, s.readEndpoints = .ok endpoints := by
  obtain ⟨⟨⟩, hsome, h⟩ := bind_eq_ok.mp h
  obtain ⟨⟨⟩, -, h⟩ := bind_eq_ok.mp h
  obtain ⟨⟨⟩, -, h⟩ := bind_eq_ok.mp h
  obtain ⟨⟨⟩, -, h⟩ := bind_eq_ok.mp h
  obtain ⟨⟨⟩, -, h⟩ := bind_eq_ok.mp h
  obtain ⟨⟨⟩, hzone, h⟩ := bind_eq_ok.mp h
  obtain ⟨⟨⟩, hexcluded, h⟩ := bind_eq_ok.mp h
  refine ⟨?_, List.forall_mem_cons.mpr ⟨hzone, forM_eq_ok hexcluded⟩, ?_⟩
  · simpa using require_eq_ok hsome
  · cases hread : s.readEndpoints with
    | error e =>
      rw [hread] at h
      cases h
    | ok endpoints => exact ⟨endpoints, rfl⟩

end ForwardSettings

namespace Settings

variable {ω : Type} [Net.Network ω]

theorem endpoints_foldl_add (s : Settings) (network : ω) (endpoints : List Endpoint)
    (f : Forwarder (Proxy ω) Empty) :
    (endpoints.foldl (fun f e => f.add (s.proxy network e)) f).resolvers.map Proxy.endpoint =
      f.resolvers.map Proxy.endpoint ++ endpoints := by
  induction endpoints generalizing f with
  | nil => simp
  | cons e endpoints ih =>
    rw [List.foldl_cons, ih]
    simp [Forwarder.add, Resolver.start, proxy, Proxy.ofEndpoint]

theorem read_isOk_iff {zone : String} {excluded : List String} :
    (∃ a, Admission.read zone excluded = .ok a) ↔
      ∀ z ∈ zone :: excluded, ∃ n, Name.readZone z = .ok n := by
  rw [List.forall_mem_cons, ← mapM_isOk_iff]
  constructor
  · rintro ⟨a, h⟩
    obtain ⟨names, hnames, h⟩ := bind_eq_ok.mp h
    obtain ⟨n, hn, -⟩ := bind_eq_ok.mp h
    exact ⟨⟨n, hn⟩, names, hnames⟩
  · rintro ⟨⟨n, hn⟩, names, hnames⟩
    exact ⟨⟨n, names⟩, by rw [Admission.read, hnames, hn]; rfl⟩

theorem emptyForwarder_eq {ρ : Type} (s : Settings) (draws : Nat → Nat) :
    s.emptyForwarder draws = (Admission.read s.forward.zone s.forward.excluded).map fun admission =>
      ({ rotation := Rotation.ofKind draws s.forward.rotation
         admission := admission
         maxFails := s.forward.maxFails
         preference := s.preference
         probeInterval := s.forward.probeInterval } : Forwarder ρ Empty) := by
  unfold emptyForwarder
  cases Admission.read s.forward.zone s.forward.excluded <;> rfl

theorem responder_eq {s : Settings} {endpoints : List Endpoint}
    (hread : s.forward.readEndpoints = .ok endpoints) (hne : endpoints ≠ []) (draws : Nat → Nat)
    (network : ω) :
    s.responder draws network =
      ((s.emptyForwarder draws).mapError StartError.failure).map fun empty =>
        ⟨endpoints.foldl (fun f e => f.add (s.proxy network e)) empty,
          s.forward.timeout.toNat⟩ := by
  unfold responder forwarder
  cases s.emptyForwarder draws with
  | error cause => rfl
  | ok empty =>
    have hready :
        (endpoints.foldl (fun f e => f.add (s.proxy network e)) empty).ready = .ok () := by
      have hmap := endpoints_foldl_add s network endpoints empty
      refine if_neg fun hempty => hne ?_
      rw [List.isEmpty_iff.mp hempty] at hmap
      exact (List.append_eq_nil_iff.mp hmap.symm).2
    rw [hread]
    show Except.map _ (Except.mapError _ (Forwarder.ready _) >>= _) = _
    rw [hready]
    rfl

/-- Settings that pass the checks make a responder exactly if their zones are names. A zone
without escapes is one when its labels are spelled as labels, with one dot at the end or none.
The responder has one resolver for each endpoint, in their order. -/
theorem responder_of_check {s : Settings} (h : s.check = .ok ()) (draws : Nat → Nat)
    (network : ω) :
    ((∃ r, s.responder draws network = .ok r) ↔
      ∀ zone ∈ s.forward.zone :: s.forward.excluded, ∃ n, Name.readZone zone = .ok n) ∧
    (∀ zone ∈ s.forward.zone :: s.forward.excluded, '\\' ∉ zone.toList →
      ((∃ n, Name.readZone zone = .ok n) ↔ Name.IsZone zone.toList)) ∧
    ∃ endpoints, s.forward.readEndpoints = .ok endpoints ∧
      endpoints.length = s.forward.endpoints.length ∧
      ∀ r, s.responder draws network = .ok r →
        r.handler.resolvers.map Proxy.endpoint = endpoints := by
  obtain ⟨⟨⟩, -, h⟩ := bind_eq_ok.mp h
  obtain ⟨⟨⟩, -, h⟩ := bind_eq_ok.mp h
  obtain ⟨hsome, hzones, endpoints, hread⟩ := ForwardSettings.check_eq_ok h
  have hlength : endpoints.length = s.forward.endpoints.length := length_of_mapM hread
  have hne : endpoints ≠ [] := by
    rintro rfl
    exact hsome (List.length_eq_zero_iff.mp hlength.symm)
  refine ⟨?starts, fun zone hzone hescape => Name.readZone_isOk_iff hescape (hzones zone hzone),
    endpoints, hread, hlength, ?registered⟩
  case starts =>
    rw [← read_isOk_iff, responder_eq hread hne, emptyForwarder_eq]
    cases Admission.read s.forward.zone s.forward.excluded <;> simp [Except.map, Except.mapError]
  case registered =>
    intro r hr
    rw [responder_eq hread hne, emptyForwarder_eq] at hr
    cases hadmission : Admission.read s.forward.zone s.forward.excluded with
    | error cause => simp [hadmission, Except.map, Except.mapError] at hr
    | ok admission =>
      simp only [hadmission, Except.map, Except.mapError, Except.ok.injEq] at hr
      rw [← hr, endpoints_foldl_add]
      rfl

def forExample : Settings where
  forward := {
    zone := "example.org."
    endpoints := ["192.0.2.1", "tls://192.0.2.2"]
    excluded := ["internal.example.org"] }

theorem responder_forExample : forExample.check = .ok () ∧
    ∃ r, forExample.responder id Net.Unreachable.mk = .ok r ∧
      r.handler.resolvers.map Proxy.endpoint = [.plain ⟨.v4 ⟨192, 0, 2, 1⟩, 53⟩,
        .tls ⟨.v4 ⟨192, 0, 2, 2⟩, 853⟩ "192.0.2.2"] := by
  have hcheck : forExample.check = .ok () := rfl
  obtain ⟨hstarts, hzones, endpoints, hread, -, hregistered⟩ :=
    responder_of_check hcheck id Net.Unreachable.mk
  have hnames : ∀ zone ∈ forExample.forward.zone :: forExample.forward.excluded,
      ∃ n, Name.readZone zone = .ok n := by
    refine List.forall_mem_cons.mpr ⟨?_, List.forall_mem_cons.mpr ⟨?_, nofun⟩⟩
    · exact (hzones "example.org." (by decide) (by decide)).mpr (.inr ⟨by decide, .inr (by decide)⟩)
    · exact (hzones "internal.example.org" (by decide) (by decide)).mpr
        (.inr ⟨by decide, .inl (by decide)⟩)
  obtain ⟨r, hr⟩ := hstarts.mpr hnames
  refine ⟨hcheck, r, hr, (hregistered r hr).trans (Except.ok.inj (hread.symm.trans ?_))⟩
  rfl

/-- An excluded zone with a blank after its name. -/
def withBlank : Settings where
  forward := { endpoints := ["192.0.2.1"], excluded := ["example.org "] }

/-- The checks pass what the reader of names refuses. -/
theorem responder_withBlank : withBlank.check = .ok () ∧
    withBlank.responder id Net.Unreachable.mk = .error (.failure (.invalidName
      "Invalid zone 'example.org ': unrecognized char:  ")) :=
  ⟨rfl, rfl⟩

end Settings

end DnsFanout
