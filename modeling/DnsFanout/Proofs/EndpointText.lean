import DnsFanout.Endpoint
import DnsFanout.Proofs.Address.Characters
import Mathlib.Data.List.Basic

/-! Endpoints in their full written form, which is read back as it was written when the
server name can stand at the end of a text. -/

namespace DnsFanout

open Text Net

namespace Text

theorem trimStart_eq_self {s : List Char} (h : ∀ c ∈ s.head?, isBlank c = false) :
    trimStart s = s := by
  cases s with
  | nil => rfl
  | cons c s => simp [trimStart, h c rfl]

theorem trim_eq_self {s : List Char} (hfirst : ∀ c ∈ s.head?, isBlank c = false)
    (hlast : ∀ c ∈ s.getLast?, isBlank c = false) : trim s = s := by
  have hback : trimStart s.reverse = s.reverse :=
    trimStart_eq_self fun c hc => hlast c (by simpa using hc)
  rw [trim, trimStart_eq_self hfirst]
  exact (congrArg List.reverse hback).trans s.reverse_reverse

theorem getLast?_trim {s : List Char} {c : Char} (h : (trim s).getLast? = some c) :
    isBlank c = false := by
  have hhead := List.head?_dropWhile_not isBlank (trimStart s).reverse
  rw [trim, trimEnd, List.getLast?_reverse] at h
  rw [h] at hhead
  exact hhead

theorem getLast?_append_of_some (s : List Char) {rest : List Char} {c : Char}
    (h : rest.getLast? = some c) : (s ++ rest).getLast? = some c := by
  rw [List.getLast?_append, h, Option.some_or]

end Text

namespace Endpoint

/-! ### Addresses -/

theorem takeWhile_append_stop {c : Char} {s : List Char} (h : c ∉ s) (rest : List Char) :
    (s ++ c :: rest).takeWhile (· ≠ c) = s := by
  rw [List.takeWhile_append_of_pos (by simpa using fun x hx => ne_of_mem_of_not_mem hx h)]
  simp

theorem dropWhile_append_stop {c : Char} {s : List Char} (h : c ∉ s) (rest : List Char) :
    (s ++ c :: rest).dropWhile (· ≠ c) = c :: rest := by
  rw [List.dropWhile_append_of_pos (by simpa using fun x hx => ne_of_mem_of_not_mem hx h)]
  simp

theorem splitService?_plain {host number : List Char} (hbracket : '[' ∉ host) (hhost : ':' ∉ host)
    (hnumber : ':' ∉ number) :
    splitService? (host ++ ':' :: number) = (readWord16? number).map (host, some ·) := by
  have hcount : ¬1 < (host ++ ':' :: number).count ':' := by
    simp [List.count_append, List.count_eq_zero_of_not_mem, hhost, hnumber]
  unfold splitService?
  split
  · next rest heq =>
    cases host with
    | nil => cases heq
    | cons c host =>
      obtain rfl : c = '[' := (List.cons.inj heq).1
      exact absurd List.mem_cons_self hbracket
  · rw [if_neg hcount, dropWhile_append_stop hhost, takeWhile_append_stop hhost]

theorem splitService?_bracketed {host number : List Char} (hhost : ']' ∉ host) :
    splitService? ('[' :: host ++ ']' :: ':' :: number) =
      (readWord16? number).map (host, some ·) := by
  simp only [splitService?, List.cons_append, dropWhile_append_stop hhost,
    takeWhile_append_stop hhost]

theorem splitService?_toChars (a : SocketAddress) :
    splitService? a.toChars = some (a.host.toChars, some a.service) := by
  have hopen : '[' ∉ a.host.toChars := fun hmem =>
    absurd (isAddressChar_of_mem_toChars hmem) (by decide)
  have hclose : ']' ∉ a.host.toChars := fun hmem =>
    absurd (isAddressChar_of_mem_toChars hmem) (by decide)
  have hnumber : ':' ∉ digits 10 a.service.toNat := fun hmem =>
    absurd (isDigit_of_mem_digits (by decide) (by decide) hmem) (by decide)
  have hread : (readWord16? (digits 10 a.service.toNat)).map (a.host.toChars, some ·) =
      some (a.host.toChars, some a.service) := by
    rw [readWord16?_digits, Option.map_some]
  obtain ⟨ip, service⟩ := a
  cases ip with
  | v4 ip => exact (splitService?_plain hopen ip.colon_notMem hnumber).trans hread
  | v6 ip =>
    have htext : SocketAddress.toChars ⟨.v6 ip, service⟩ =
        '[' :: ip.toChars ++ ']' :: ':' :: digits 10 service.toNat := by
      simp [SocketAddress.toChars]
    rw [htext]
    exact (splitService?_bracketed hclose).trans hread

theorem parseAddress_toChars (a : SocketAddress) (fallback : UInt16) :
    parseAddress a.toChars fallback = .ok a := by
  simp [parseAddress, splitService?_toChars]

/-! ### Endpoints -/

theorem toChars_tls (a : SocketAddress) (name : String) :
    (tls a name).toChars = "tls://".toList ++ (a.toChars ++ '#' :: name.toList) :=
  List.append_assoc ..

/-- The server name can stand at the end of a text: it is not empty, and no blank is its last
character. -/
def Nameable (e : Endpoint) : Prop :=
  ∀ name, e.serverName? = some name → ∃ c, name.toList.getLast? = some c ∧ isBlank c = false

theorem parseTls_toChars (a : SocketAddress) {name : List Char} (h : name ≠ [])
    (whole : List Char) :
    parseTls whole (a.toChars ++ '#' :: name) = .ok (.tls a (String.ofList name)) := by
  have hmark : '#' ∉ a.toChars := a.not_mem_toChars (by decide)
  obtain ⟨c, more, rfl⟩ := List.exists_cons_of_ne_nil h
  simp only [parseTls, dropWhile_append_stop hmark, takeWhile_append_stop hmark,
    parseAddress_toChars]

theorem parseChars_of_tls {text rest : List Char} (h : trim text = "tls://".toList ++ rest) :
    parseChars text = parseTls (trim text) rest := by
  have hne : "tls://".toList ++ rest ≠ [] := by simp
  unfold parseChars
  dsimp only
  rw [h, if_neg hne, after?_append]

theorem parseChars_of_dns {text rest : List Char} (h : trim text = "dns://".toList ++ rest)
    (hscheme : occurs "://".toList rest = false) :
    parseChars text = (parseAddress rest defaultService).map .plain := by
  have hne : "dns://".toList ++ rest ≠ [] := by simp
  have htls : after? "tls://".toList ("dns://".toList ++ rest) = none := rfl
  unfold parseChars
  dsimp only
  rw [h, if_neg hne, htls, after?_append]
  dsimp only [Option.getD_some]
  rw [if_neg (Bool.eq_false_iff.mp hscheme)]

theorem parseChars_eq_ok {text : List Char} {e : Endpoint} (h : parseChars text = .ok e) :
    (∃ a, e = .plain a) ∨ ∃ rest, trim text = "tls://".toList ++ rest ∧
      parseTls (trim text) rest = .ok e := by
  unfold parseChars at h
  dsimp only at h
  split at h
  · cases h
  · split at h
    · next rest hafter => exact .inr ⟨rest, eq_append_of_after? hafter, h⟩
    · split at h
      · cases h
      · generalize parseAddress _ _ = address at h
        cases address with
        | error cause => cases h
        | ok a =>
          cases h
          exact .inl ⟨a, rfl⟩

theorem parseTls_eq_ok {whole rest : List Char} {e : Endpoint} (h : parseTls whole rest = .ok e) :
    (∃ a : SocketAddress, e = .tls a a.host.text) ∨
      ∃ a c name, e = .tls a (String.ofList (c :: name)) ∧ c :: name <:+ rest := by
  have hsuffix : rest.dropWhile (· ≠ '#') <:+ rest := List.dropWhile_suffix _
  unfold parseTls at h
  dsimp only at h
  generalize rest.dropWhile (· ≠ '#') = mark at h hsuffix
  generalize parseAddress _ _ = address at h
  cases mark with
  | nil =>
    cases address with
    | error cause => cases h
    | ok a =>
      cases h
      exact .inl ⟨a, rfl⟩
  | cons sign name =>
    cases name with
    | nil => cases h
    | cons c name =>
      cases address with
      | error cause => cases h
      | ok a =>
        cases h
        exact .inr ⟨a, c, name, rfl, (List.suffix_cons sign _).trans hsuffix⟩

theorem nameable_of_parseChars {text : List Char} {e : Endpoint} (h : parseChars text = .ok e) :
    e.Nameable := by
  rcases parseChars_eq_ok h with ⟨a, rfl⟩ | ⟨rest, htrim, htls⟩
  · rintro name ⟨⟩
  · rcases parseTls_eq_ok htls with ⟨a, rfl⟩ | ⟨a, c, name, rfl, hsuffix⟩
    · rintro name ⟨⟩
      have hne : a.host.toChars ≠ [] := by
        intro hnil
        have hparse := a.host.parse?_toChars
        rw [hnil] at hparse
        cases hparse
      have hlast := List.getLast?_eq_some_getLast hne
      refine ⟨_, by simpa [IPAddress.text] using hlast, ?_⟩
      exact not_isBlank_of_isAddressChar (isAddressChar_of_mem_toChars (List.getLast_mem hne))
    · rintro _ ⟨⟩
      have hlast := List.getLast?_eq_some_getLast (List.cons_ne_nil c name)
      refine ⟨_, by simpa using hlast, getLast?_trim (s := text) ?_⟩
      obtain ⟨before, rfl⟩ := hsuffix
      rw [htrim, ← List.append_assoc]
      exact getLast?_append_of_some _ hlast

theorem trim_toChars {e : Endpoint} (h : e.Nameable) : trim e.toChars = e.toChars := by
  have hscheme : "dns://".toList.any isBlank = false := rfl
  cases e with
  | plain a =>
    refine trim_eq_self (fun c hc => ?_) fun c hc => ?_
    · obtain rfl : 'd' = c := Option.some.inj hc
      rfl
    · rcases List.mem_append.mp (List.mem_of_getLast? hc) with hmem | hmem
      · exact Bool.eq_false_iff.mpr (List.any_eq_false.mp hscheme c hmem)
      · exact SocketAddress.not_isBlank_of_mem_toChars hmem
  | tls a name =>
    obtain ⟨last, hlast, hblank⟩ := h name rfl
    refine trim_eq_self (fun c hc => ?_) fun c hc => ?_
    · obtain rfl : 't' = c := Option.some.inj hc
      rfl
    · have hsame : (tls a name).toChars.getLast? = some last :=
        getLast?_append_of_some _ (by rw [List.getLast?_cons, hlast, Option.getD_some])
      obtain rfl : last = c := Option.some.inj (hsame.symm.trans hc)
      exact hblank

theorem parseChars_toChars {e : Endpoint} (h : e.Nameable) : parseChars e.toChars = .ok e := by
  cases e with
  | plain a =>
    have hslash : '/' ∉ a.toChars := a.not_mem_toChars (by decide)
    have hscheme : occurs "://".toList a.toChars = false :=
      Bool.eq_false_iff.mpr fun h => hslash (mem_of_occurs h (by decide))
    rw [parseChars_of_dns (trim_toChars h) hscheme, parseAddress_toChars]
    rfl
  | tls a name =>
    obtain ⟨c, hlast, -⟩ := h name rfl
    have hname : name.toList ≠ [] := fun hnil => by simp [hnil] at hlast
    have htrim : trim (tls a name).toChars =
        "tls://".toList ++ (a.toChars ++ '#' :: name.toList) :=
      (trim_toChars h).trans (toChars_tls a name)
    rw [parseChars_of_tls htrim, parseTls_toChars a hname, String.ofList_toList]

/-- What was read as an endpoint, and nothing else, is read back from its full form. -/
theorem parseChars_toChars_iff {e : Endpoint} : parseChars e.toChars = .ok e ↔ e.Nameable :=
  ⟨nameable_of_parseChars, parseChars_toChars⟩

theorem parse_text_of_parse {s : String} {e : Endpoint} (h : parse s = .ok e) :
    parse e.text = .ok e := by
  unfold parse text at *
  rw [String.toList_ofList]
  exact parseChars_toChars_iff.mpr (nameable_of_parseChars h)

/-- Blanks around it, a dotted address in brackets, no service number, and a server name that
looks like more of an endpoint. -/
theorem parse_text_mapped :
    let e : Endpoint := .tls ⟨.v6 ⟨[0, 0, 0, 0, 0, 0xFFFF, 0x102, 0x304], rfl⟩, 853⟩ " a#b]:c d"
    parse "\t tls://[0::FFFF:1.2.3.4]# a#b]:c d\n" = .ok e ∧
      e.text = "tls://[::ffff:1.2.3.4]:853# a#b]:c d" ∧ parse e.text = .ok e := by
  intro e
  have hparse : parse "\t tls://[0::FFFF:1.2.3.4]# a#b]:c d\n" = .ok e := by cbv
  exact ⟨hparse, by decide, parse_text_of_parse hparse⟩

end Endpoint

end DnsFanout
