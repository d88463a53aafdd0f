import DnsFanout.Proxy
import DnsFanout.Proofs.Worker.Journal

/-! What reaches the health of a resolver: charges and requests for probes, which a
worker makes in turn, and the ends of probes. Whatever else is sent leaves it alone. -/

namespace DnsFanout

open Net

namespace Health

@[simp] theorem probing_markFailed (h : Health) : h.markFailed.probing = h.probing := by
  unfold markFailed
  split <;> rfl

theorem fails_markFailed (h : Health) :
    h.markFailed.fails.toNat = min (h.fails.toNat + 1) maxCount.toNat := by
  have hlt : h.fails.toNat < 4294967296 := h.fails.toNat_lt
  have hmax : maxCount.toNat = 4294967295 := rfl
  unfold markFailed
  split
  · next heq =>
    rw [heq, hmax]
    rfl
  · next hne =>
    have hsmall : h.fails.toNat ≠ 4294967295 := fun heq => hne (UInt32.toNat_inj.mp heq)
    rw [hmax, UInt32.toNat_add, UInt32.toNat_one]
    omega

theorem isDown_iff {h : Health} {maxFails : UInt32} (hmax : maxFails ≠ 0) :
    h.isDown maxFails = true ↔ maxFails.toNat < h.fails.toNat := by
  simp [isDown, hmax, UInt32.lt_iff_toNat_lt]

end Health

namespace Proxy

variable {ω : Type} [Network ω]

theorem exchangeBytes_health (query : Bytes) (transport : Transport) (timeout : Nat)
    (stop : Option Instant) (now : Instant) (p : Proxy ω) :
    (p.exchangeBytes query transport timeout stop now).2.2.health = p.health ∧
      (p.exchangeBytes query transport timeout stop now).2.2.stopped = p.stopped := by
  unfold exchangeBytes
  split <;> exact ⟨rfl, rfl⟩

/-- An exchange, whatever comes of it, neither counts nor probes. -/
theorem exchange_health (message : Message) (transport : Transport) (timeout : Nat)
    (stop : Option Instant) (now : Instant) (p : Proxy ω) :
    (p.exchange message transport timeout stop now).2.health = p.health ∧
      (p.exchange message transport timeout stop now).2.stopped = p.stopped := by
  unfold exchange
  split
  · exact ⟨rfl, rfl⟩
  · exact exchangeBytes_health ..

/-- A probe is a failure more, or it clears the failures and then ends the loop; a probe
that comes to nothing is neither. -/
theorem probe_health (id : UInt16) (now : Instant) (p : Proxy ω) :
    (p.probe id now).2.health = p.health ∨ (p.probe id now).2.health = p.health.markFailed ∨
      (p.probe id now).2.health = p.health.markHealthy.endProbe := by
  have hkept := (exchange_health (Message.probe id)
    (if p.probesOverStream then .stream else .datagram) p.readTimeout none now p).1
  unfold probe
  dsimp only
  split
  · exact .inl hkept
  · next result finished hdone =>
    cases judge id result with
    | ok => exact .inr (.inr (by rw [hkept]))
    | error cause => exact .inr (.inl (by rw [hkept]))

end Proxy

namespace Worker

variable {ρ : Type} [Resolver ρ] {maxFails : UInt32} {scope : Scope} {request : Request}

theorem reaching_round (w : Worker) (scope : Scope) (now t : Instant)
    (result : Except Failure Message) :
    ((w.opening scope now ++ [(t, Deed.heard result)]).map Prod.snd).filter Deed.reaches = [] := by
  unfold opening
  split <;> rfl

theorem reaching_charging (hmax : maxFails ≠ 0) (t : Instant) :
    ((charging maxFails t).map Prod.snd).filter Deed.reaches = [.charged, .asked] := by
  simp [charging, hmax, Deed.reaches]

/-- A worker charges a failure and asks for a probe, in turn, and does nothing else to the
health of its resolver. -/
theorem reaching_logged (hmax : maxFails ≠ 0) {w : Worker} {now : Instant} {r : ρ} {log : Log ρ}
    (h : logged maxFails scope request w now r = some log) :
    ∃ n, log.deeds.filter Deed.reaches =
      (List.replicate n [Deed.charged, Deed.asked]).flatten := by
  refine logged_induction (motive := fun _ _ _ log => ∃ n, log.deeds.filter Deed.reaches =
    (List.replicate n [Deed.charged, Deed.asked]).flatten)
    ?crashed ?again ?charged ?done w now r log h
  case crashed =>
    intro w now t r r' detail ha
    refine ⟨0, ?_⟩
    unfold opening
    split <;> rfl
  case again =>
    rintro w w' now t r r' result log ha ho ⟨n, ih⟩
    refine ⟨n, ?_⟩
    rw [Log.deeds] at ih
    rw [Log.deeds, Log.after, List.map_append, List.filter_append, reaching_round, ih]
    rfl
  case charged =>
    rintro w w' now t r r' result log ha ho ⟨n, ih⟩
    refine ⟨n + 1, ?_⟩
    rw [Log.deeds] at ih
    rw [Log.deeds, Log.after, List.map_append, List.filter_append, List.map_append,
      List.filter_append, reaching_round, reaching_charging hmax, ih, List.replicate_succ,
      List.flatten_cons]
    rfl
  case done =>
    intro w now t r r' result charged outcome ha ho
    rw [Log.deeds]
    cases charged with
    | false =>
      refine ⟨0, ?_⟩
      simp only [Bool.false_eq_true, if_false, List.append_nil, reaching_round]
      rfl
    | true =>
      refine ⟨1, ?_⟩
      simp only [if_true]
      rw [List.map_append, List.filter_append, reaching_round, reaching_charging hmax]
      rfl

end Worker

end DnsFanout
