import DnsFanout.Proofs.EndpointText
import DnsFanout.Proofs.Startup

/-! Endpoints of settings that have passed the checks. Those that were read are read back from
their full form; a configured server name takes the place of one that was read, and nothing
has looked at it. -/

namespace DnsFanout

open Text Net

namespace Text

theorem trimEnd_append {c : Char} (h : isBlank c = false) (s rest : List Char) :
    trimEnd (s ++ c :: rest) = s ++ c :: trimEnd rest := by
  have hreverse : (s ++ c :: rest).reverse = rest.reverse ++ c :: s.reverse := by simp
  rw [trimEnd, hreverse, List.dropWhile_append]
  split
  · next hblank => simp [trimEnd, List.isEmpty_iff.mp hblank, h]
  · simp [trimEnd]

end Text

namespace Endpoint

/-- The full form of a TLS endpoint is read back without the blanks at its end, and refused if
that leaves no name. -/
theorem parse_text_tls (a : SocketAddress) (name : String) :
    parse (tls a name).text =
      if trimEnd name.toList = [] then .error (.emptyServerName (tls a "").text)
      else .ok (tls a (String.ofList (trimEnd name.toList))) := by
  have htrim : trim (tls a name).toChars =
      "tls://".toList ++ (a.toChars ++ '#' :: trimEnd name.toList) := by
    have hstart : trimStart (tls a name).toChars = (tls a name).toChars := rfl
    have hmark : isBlank '#' = false := by decide
    calc trim (tls a name).toChars
      _ = trimEnd ("tls://".toList ++ a.toChars ++ '#' :: name.toList) := congrArg trimEnd hstart
      _ = "tls://".toList ++ a.toChars ++ '#' :: trimEnd name.toList := trimEnd_append hmark _ _
      _ = "tls://".toList ++ (a.toChars ++ '#' :: trimEnd name.toList) := List.append_assoc ..
  rw [parse, text, String.toList_ofList, parseChars_of_tls htrim]
  split
  · next hnone =>
    have hmark : '#' ∉ a.toChars := a.not_mem_toChars (by decide)
    rw [hnone, parseTls, dropWhile_append_stop hmark, htrim, hnone, text, toChars_tls]
    rfl
  · next hname => exact parseTls_toChars a hname _

theorem parse_text_iff {e : Endpoint} : parse e.text = .ok e ↔ e.Nameable := by
  rw [parse, text, String.toList_ofList]
  exact parseChars_toChars_iff

end Endpoint

namespace ForwardSettings

variable {s : ForwardSettings}

/-- An endpoint is taken as it was read, or with the configured server name. -/
theorem readEndpoint_eq_ok {text : String} {e : Endpoint} (h : s.readEndpoint text = .ok e) :
    ∃ read, Endpoint.parse text = .ok read ∧
      e = (s.serverName.map read.withServerName).getD read := by
  unfold readEndpoint at h
  split at h
  · cases h
  · next read hread =>
    refine ⟨read, hread, ?_⟩
    cases hname : s.serverName <;> simp_all

theorem nameable_iff {text : String} {e : Endpoint} (h : s.readEndpoint text = .ok e) :
    e.Nameable ↔ ∀ name, s.serverName = some name → e.isTls = true →
      ∃ c, name.toList.getLast? = some c ∧ isBlank c = false := by
  obtain ⟨read, hread, rfl⟩ := readEndpoint_eq_ok h
  cases hname : s.serverName with
  | none => simp [Endpoint.nameable_of_parseChars hread]
  | some name =>
    cases read <;>
      simp [Endpoint.Nameable, Endpoint.withServerName, Endpoint.serverName?, Endpoint.isTls]

/-- Each endpoint of settings that pass the checks is read back from its full form, unless it is
a TLS endpoint and the configured server name is empty or ends in a blank. Then the full form
is refused, or read as another endpoint. -/
theorem parse_text_of_check (h : s.check = .ok ()) :
    ∃ endpoints, s.readEndpoints = .ok endpoints ∧ endpoints.length = s.endpoints.length ∧
      ∀ e ∈ endpoints,
        (Endpoint.parse e.text = .ok e ↔ ∀ name, s.serverName = some name → e.isTls = true →
          ∃ c, name.toList.getLast? = some c ∧ isBlank c = false) ∧
        ∀ name, s.serverName = some name → e.isTls = true →
          e.serverName? = some name ∧ Endpoint.parse e.text =
            if trimEnd name.toList = [] then .error (.emptyServerName (e.withServerName "").text)
            else .ok (e.withServerName (String.ofList (trimEnd name.toList))) := by
  obtain ⟨-, -, endpoints, hread⟩ := check_eq_ok h
  refine ⟨endpoints, hread, length_of_mapM hread, fun e he => ?_⟩
  obtain ⟨text, -, htext⟩ := exists_of_mem_mapM hread e he
  refine ⟨Endpoint.parse_text_iff.trans (nameable_iff htext), fun name hname htls => ?_⟩
  obtain ⟨read, -, rfl⟩ := readEndpoint_eq_ok htext
  rw [hname] at htls ⊢
  cases read with
  | plain a => cases htls
  | tls a other => exact ⟨rfl, Endpoint.parse_text_tls a name⟩

def named : ForwardSettings where
  endpoints := ["192.0.2.1", "tls://192.0.2.2#other"]
  serverName := some " dns.example"

theorem parse_text_named : named.check = .ok () ∧
    ∃ endpoints, named.readEndpoints = .ok endpoints ∧ endpoints.length = 2 ∧
      ∀ e ∈ endpoints, Endpoint.parse e.text = .ok e := by
  have hcheck : named.check = .ok () := rfl
  obtain ⟨endpoints, hread, hlength, hall⟩ := parse_text_of_check hcheck
  refine ⟨hcheck, endpoints, hread, hlength, fun e he => (hall e he).1.mpr ?_⟩
  rintro _ ⟨⟩ -
  exact ⟨'e', by decide, by decide⟩

/-- A server name that is there and empty. -/
def unnamed : ForwardSettings where
  endpoints := ["tls://192.0.2.1"]
  serverName := some ""

theorem parse_text_unnamed : unnamed.check = .ok () ∧
    ∃ e, unnamed.readEndpoints = .ok [e] ∧ e.text = "tls://192.0.2.1:853#" ∧
      Endpoint.parse e.text = .error (.emptyServerName "tls://192.0.2.1:853#") := by
  let a : SocketAddress := ⟨.v4 ⟨192, 0, 2, 1⟩, 853⟩
  have htext : (Endpoint.tls a "").text = "tls://192.0.2.1:853#" := by decide
  have hnone : trimEnd "".toList = [] := rfl
  have hparse := Endpoint.parse_text_tls a ""
  rw [if_pos hnone] at hparse
  refine ⟨rfl, .tls a "", rfl, htext, hparse.trans ?_⟩
  rw [htext]

end ForwardSettings

end DnsFanout
