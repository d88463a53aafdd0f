import DnsFanout.Proofs.EndpointText
import Mathlib.Data.List.TakeWhile

/-! The texts that are read as endpoints, each in one way, and no others. -/

namespace DnsFanout

open Text Net

namespace Endpoint

/-- A part that may be left out, behind its sign. -/
def behind (sign : Char) : Option (List Char) → List Char
  | none => []
  | some part => sign :: part

/-- The parts of an address text: the host, in brackets or not, and perhaps a service number. -/
structure Place where
  boxed : Bool
  host : List Char
  number : Option (List Char)
deriving DecidableEq

namespace Place

def chars (p : Place) : List Char :=
  (if p.boxed then '[' :: p.host ++ [']'] else p.host) ++ behind ':' p.number

/-- Outside brackets a service number stands behind an address of version 4 only; where there is
none, `fallback` is meant. -/
structure Means (p : Place) (fallback : UInt16) (a : SocketAddress) : Prop where
  host : a.host.IsText p.host
  service : p.number = none → a.service = fallback
  number : ∀ number, p.number = some number → IsNumber a.service number
  boxed : p.number.isSome → a.host.isV6 → p.boxed

end Place

/-- The parts of an endpoint text: `dns://` or nothing before the address, or `tls://` and
perhaps a server name behind `#`. -/
inductive Spelling
  | plain (marked : Bool) (place : Place)
  | tls (place : Place) (name : Option (List Char))
deriving DecidableEq

namespace Spelling

def chars : Spelling → List Char
  | plain marked p => (if marked then "dns://".toList else []) ++ p.chars
  | tls p name => "tls://".toList ++ (p.chars ++ behind '#' name)

/-- A server name is not empty; where there is none, it is the text of the address. -/
def Means : Spelling → Endpoint → Prop
  | plain _ p, e => ∃ a, p.Means defaultService a ∧ e = .plain a
  | tls p name, e => ∃ a, p.Means defaultTlsService a ∧ name ≠ some [] ∧
      e = .tls a ((name.map String.ofList).getD a.host.text)

end Spelling

/-! ### Optional parts -/

theorem behind_injective {sign : Char} {x y : Option (List Char)}
    (h : behind sign x = behind sign y) : x = y := by
  cases x <;> cases y <;> simp_all [behind]

theorem takeWhile_behind {sign : Char} {s : List Char} (h : sign ∉ s) (x : Option (List Char)) :
    (s ++ behind sign x).takeWhile (· ≠ sign) = s := by
  cases x with
  | none =>
    rw [behind, List.append_nil, List.takeWhile_eq_self_iff]
    exact fun c hc => by simpa using ne_of_mem_of_not_mem hc h
  | some part => exact takeWhile_append_stop h part

theorem dropWhile_behind {sign : Char} {s : List Char} (h : sign ∉ s) (x : Option (List Char)) :
    (s ++ behind sign x).dropWhile (· ≠ sign) = behind sign x := by
  have happend := List.takeWhile_append_dropWhile (p := (· ≠ sign)) (l := s ++ behind sign x)
  rw [takeWhile_behind h] at happend
  exact List.append_cancel_left happend

/-! ### Addresses -/

theorem eq_append_of_dropWhile {c x : Char} {s rest : List Char}
    (h : s.dropWhile (· ≠ c) = x :: rest) : s = s.takeWhile (· ≠ c) ++ c :: rest := by
  have hhead := List.head?_dropWhile_not (· ≠ c) s
  rw [h] at hhead
  have hx : x = c := by simpa using hhead
  rw [← hx, ← h, hx, List.takeWhile_append_dropWhile]

theorem notMem_takeWhile (c : Char) (s : List Char) : c ∉ s.takeWhile (· ≠ c) := fun hmem => by
  simpa using List.all_eq_true.mp List.all_takeWhile c hmem

theorem notMem_of_isText {ip : IPAddress} {s : List Char} (h : ip.IsText s) {c : Char}
    (hc : isAddressChar c = false) : c ∉ s := fun hmem =>
  absurd (h.isAddressChar hmem) (Bool.eq_false_iff.mp hc)

theorem mem_of_isV6 {ip : IPAddress} {s : List Char} (h : ip.IsText s) (hv6 : ip.isV6 = true) :
    ':' ∈ s := by
  cases ip with
  | v4 ip => cases hv6
  | v6 ip => exact List.count_pos_iff.mp (Nat.lt_of_succ_lt (IPv6.IsText.one_lt_count h))

theorem colon_notMem_of_isText {ip : IPAddress} {s : List Char} (h : ip.IsText s)
    (hv6 : ip.isV6 = false) : ':' ∉ s := by
  cases ip with
  | v4 ip => exact (show s = ip.toChars from h) ▸ ip.colon_notMem
  | v6 ip => cases hv6

theorem isV6_of_mem {ip : IPAddress} {s : List Char} (h : ip.IsText s) (hmem : ':' ∈ s) :
    ip.isV6 = true ∧ 1 < s.count ':' := by
  cases ip with
  | v4 ip => exact absurd hmem (colon_notMem_of_isText h rfl)
  | v6 ip => exact ⟨rfl, IPv6.IsText.one_lt_count h⟩

theorem colon_notMem_of_isNumber {n : UInt16} {s : List Char} (h : IsNumber n s) : ':' ∉ s :=
  fun hmem => by
    rcases h.mem hmem with h | h
    · exact absurd h (by decide)
    · exact absurd h (by decide)

namespace Place

variable {p q : Place} {fallback : UInt16} {a : SocketAddress}

theorem Means.mem_chars (h : p.Means fallback a) {c : Char} (hc : c ∈ p.chars) :
    isAddressChar c = true ∨ c = '[' ∨ c = ']' ∨ c = '+' := by
  have host (hc : c ∈ p.host) : isAddressChar c = true := h.host.isAddressChar hc
  obtain ⟨boxed, text, number⟩ := p
  rcases List.mem_append.mp hc with hc | hc
  · cases boxed with
    | false => exact .inl (host hc)
    | true =>
      simp only [if_true, List.mem_append, List.mem_cons, List.not_mem_nil, or_false] at hc
      rcases hc with (rfl | hc) | rfl
      · exact .inr (.inl rfl)
      · exact .inl (host hc)
      · exact .inr (.inr (.inl rfl))
  · cases number with
    | none => cases hc
    | some number =>
      rcases List.mem_cons.mp hc with rfl | hc
      · exact .inl rfl
      · rcases (h.number number rfl).mem hc with hdigit | rfl
        · exact .inl (isAddressChar_of_isDigit (isDigit_of_le (by decide) hdigit))
        · exact .inr (.inr (.inr rfl))

theorem Means.notMem (h : p.Means fallback a) {c : Char}
    (hc : isAddressChar c = false ∧ c ≠ '[' ∧ c ≠ ']' ∧ c ≠ '+') : c ∉ p.chars := by
  intro hmem
  rcases h.mem_chars hmem with h | h | h | h
  · exact absurd h (by simp [hc.1])
  · exact hc.2.1 h
  · exact hc.2.2.1 h
  · exact hc.2.2.2 h

/-- The parts of an address are what the text is split into. -/
theorem Means.splitService? (h : p.Means fallback a) :
    splitService? p.chars = some (p.host, p.number.map fun _ => a.service) := by
  obtain ⟨boxed, host, number⟩ := p
  have hhost : a.host.IsText host := h.host
  have hopen : '[' ∉ host := notMem_of_isText hhost (by decide)
  have hclose : ']' ∉ host := notMem_of_isText hhost (by decide)
  cases number with
  | none =>
    cases boxed with
    | true =>
      simp only [chars, behind, if_true, List.append_nil, List.cons_append, Endpoint.splitService?,
        dropWhile_append_stop hclose, takeWhile_append_stop hclose, Option.map_none]
    | false =>
      simp only [chars, behind, Bool.false_eq_true, if_false, List.append_nil, Option.map_none]
      unfold Endpoint.splitService?
      split
      · exact absurd List.mem_cons_self hopen
      · split
        · rfl
        · next hcount =>
          have hcolon : ':' ∉ host := fun hmem => hcount (isV6_of_mem hhost hmem).2
          have hall : host.dropWhile (· ≠ ':') = [] :=
            List.dropWhile_eq_nil_iff.mpr fun c hc => by
              simpa using ne_of_mem_of_not_mem hc hcolon
          rw [hall]
  | some number =>
    have hnumber : IsNumber a.service number := h.number number rfl
    have hread := readWord16?_eq_some.mpr hnumber
    cases boxed with
    | true =>
      have hsplit : Endpoint.splitService? ('[' :: host ++ ']' :: ':' :: number) = _ :=
        splitService?_bracketed hclose
      rw [hread] at hsplit
      simpa [chars, behind] using hsplit
    | false =>
      have hv6 : a.host.isV6 = false :=
        Bool.eq_false_iff.mpr fun hv6 => Bool.false_ne_true (h.boxed rfl hv6)
      have hsplit := splitService?_plain hopen (colon_notMem_of_isText hhost hv6)
        (colon_notMem_of_isNumber hnumber)
      rw [hread] at hsplit
      exact hsplit

/-- What a text is split into are parts of it, if the host is an address. -/
theorem exists_of_splitService? {s host : List Char} {service : Option UInt16} {ip : IPAddress}
    (h : Endpoint.splitService? s = some (host, service)) (hip : ip.IsText host)
    (fallback : UInt16) :
    ∃ p : Place, p.chars = s ∧ p.Means fallback ⟨ip, service.getD fallback⟩ := by
  have bare {boxed : Bool} : (⟨boxed, host, none⟩ : Place).Means fallback ⟨ip, fallback⟩ :=
    ⟨hip, fun _ => rfl, nofun, nofun⟩
  have served {boxed : Bool} {number : List Char} {n : UInt16} (hread : readWord16? number = some n)
      (hboxed : ip.isV6 = true → boxed = true) :
      (⟨boxed, host, some number⟩ : Place).Means fallback ⟨ip, n⟩ :=
    ⟨hip, nofun, fun _ hnumber => Option.some.inj hnumber ▸ readWord16?_eq_some.mp hread,
      fun _ => hboxed⟩
  unfold Endpoint.splitService? at h
  split at h
  · split at h
    · cases h
    · next c hrest =>
      cases h
      exact ⟨⟨true, _, none⟩, by simpa [chars, behind] using (eq_append_of_dropWhile hrest).symm,
        bare⟩
    · next c number hrest =>
      obtain ⟨n, hread, hpair⟩ := Option.map_eq_some_iff.mp h
      cases hpair
      exact ⟨⟨true, _, some number⟩,
        by simpa [chars, behind] using (eq_append_of_dropWhile hrest).symm, served hread fun _ => rfl⟩
    · cases h
  · split at h
    · cases h
      exact ⟨⟨false, s, none⟩, by simp [chars, behind], bare⟩
    · split at h
      · cases h
        exact ⟨⟨false, s, none⟩, by simp [chars, behind], bare⟩
      · next c number hrest =>
        obtain ⟨n, hread, hpair⟩ := Option.map_eq_some_iff.mp h
        cases hpair
        have hplain : ip.isV6 = true → false = true := fun hv6 =>
          absurd (mem_of_isV6 hip hv6) (notMem_takeWhile ':' s)
        exact ⟨⟨false, _, some number⟩, (eq_append_of_dropWhile hrest).symm, served hread hplain⟩

theorem parseAddress_eq_ok {s : List Char} :
    parseAddress s fallback = .ok a ↔ ∃ p : Place, p.chars = s ∧ p.Means fallback a := by
  constructor
  · intro h
    unfold parseAddress at h
    split at h
    · cases h
    · next host service hsplit =>
      split at h
      · cases h
      · next ip hip =>
        cases h
        exact exists_of_splitService? hsplit (IPAddress.parse?_eq_some.mp hip) fallback
  · rintro ⟨p, rfl, h⟩
    obtain ⟨ip, service⟩ := a
    have hip : IPAddress.parse? p.host = some ip := IPAddress.parse?_eq_some.mpr h.host
    have hservice : (p.number.map fun _ => service).getD fallback = service := by
      cases hnumber : p.number with
      | none => exact (h.service hnumber).symm
      | some number => rfl
    simp [parseAddress, h.splitService?, hip, hservice]

theorem Means.mem_open (h : p.Means fallback a) : '[' ∈ p.chars ↔ p.boxed = true := by
  have hhost : '[' ∉ p.host := notMem_of_isText h.host (by decide)
  have htail : '[' ∉ behind ':' p.number := by
    cases hnumber : p.number with
    | none => exact nofun
    | some number =>
      intro hmem
      rcases (h.number number hnumber).mem ((List.mem_cons.mp hmem).resolve_left (by decide)) with
        h | h
      · exact absurd h (by decide)
      · exact absurd h (by decide)
  cases hboxed : p.boxed <;> simp [chars, hboxed, hhost, htail]

/-- An address text has its parts in one way only. -/
theorem Means.unique {b : SocketAddress} (hp : p.Means fallback a) (hq : q.Means fallback b)
    (h : p.chars = q.chars) : p = q ∧ a = b := by
  have hboxed : p.boxed = q.boxed := by
    rw [Bool.eq_iff_iff, ← hp.mem_open, ← hq.mem_open, h]
  have hsplit := hp.splitService?
  rw [h, hq.splitService?, Option.some.injEq, Prod.mk.injEq] at hsplit
  obtain ⟨hhost, hservice⟩ := hsplit
  have hnumber : p.number = q.number := by
    unfold chars at h
    rw [hboxed, hhost] at h
    exact behind_injective (List.append_cancel_left h)
  have hplace : p = q := by
    cases p
    cases q
    simp_all
  subst hplace
  obtain ⟨ip, n⟩ := a
  obtain ⟨ip', n'⟩ := b
  obtain rfl : ip = ip' := hp.host.unique hq.host
  cases hnumber : p.number with
  | none =>
    have hn : n = fallback := hp.service hnumber
    have hn' : n' = fallback := hq.service hnumber
    exact ⟨rfl, by rw [hn, hn']⟩
  | some number =>
    rw [hnumber] at hservice
    obtain rfl : n' = n := Option.some.inj hservice
    exact ⟨rfl, rfl⟩

theorem Means.chars_ne_nil (h : p.Means fallback a) : p.chars ≠ [] := by
  intro hnil
  have hsplit := h.splitService?
  rw [hnil] at hsplit
  have hhost : [] = p.host := congrArg Prod.fst (Option.some.inj hsplit)
  have hread := IPAddress.parse?_eq_some.mpr h.host
  rw [← hhost] at hread
  cases hread

end Place

/-! ### Endpoints -/

theorem parseTls_eq_ok_iff {whole rest : List Char} {e : Endpoint} :
    parseTls whole rest = .ok e ↔ ∃ (p : Place) (name : Option (List Char)),
      p.chars ++ behind '#' name = rest ∧ (Spelling.tls p name).Means e := by
  constructor
  · intro h
    have hrest := List.takeWhile_append_dropWhile (p := (· ≠ '#')) (l := rest)
    have hsign {x : Char} {more : List Char} (h : rest.dropWhile (· ≠ '#') = x :: more) :
        rest = rest.takeWhile (· ≠ '#') ++ '#' :: more := eq_append_of_dropWhile h
    unfold parseTls at h
    dsimp only at h
    generalize rest.dropWhile (· ≠ '#') = mark at h hrest hsign
    generalize haddress : parseAddress (rest.takeWhile (· ≠ '#')) defaultTlsService = address at h
    cases address with
    | error cause => rcases mark with _ | ⟨_, _ | ⟨_, _⟩⟩ <;> cases h
    | ok a =>
      obtain ⟨p, hchars, hp⟩ := Place.parseAddress_eq_ok.mp haddress
      rcases mark with _ | ⟨_, _ | ⟨d, name⟩⟩
      · cases h
        exact ⟨p, none, hchars ▸ hrest, a, hp, nofun, rfl⟩
      · cases h
      · cases h
        exact ⟨p, some (d :: name), hchars ▸ (hsign rfl).symm, a, hp, nofun, rfl⟩
  · rintro ⟨p, name, rfl, a, hp, hname, rfl⟩
    have haddress := Place.parseAddress_eq_ok.mpr ⟨p, rfl, hp⟩
    have hmark : '#' ∉ p.chars := hp.notMem (by decide)
    simp only [parseTls, takeWhile_behind hmark, dropWhile_behind hmark, haddress]
    rcases name with _ | _ | ⟨c, name⟩
    · rfl
    · exact absurd rfl hname
    · rfl

theorem after?_eq_none {lead s : List Char} {c : Char} (hlead : c ∈ lead) (hc : c ∉ s) :
    after? lead s = none := by
  cases hafter : after? lead s with
  | none => rfl
  | some rest =>
    rw [eq_append_of_after? hafter] at hc
    exact absurd (List.mem_append_left rest hlead) hc

theorem parseChars_eq_ok_iff {text : List Char} {e : Endpoint} :
    parseChars text = .ok e ↔ ∃ f : Spelling, f.chars = trim text ∧ f.Means e := by
  constructor
  · intro h
    unfold parseChars at h
    dsimp only at h
    split at h
    · cases h
    · split at h
      · next rest hafter =>
        obtain ⟨p, name, rfl, he⟩ := parseTls_eq_ok_iff.mp h
        exact ⟨.tls p name, (eq_append_of_after? hafter).symm, he⟩
      · split at h
        · cases h
        · generalize haddress : parseAddress _ _ = address at h
          cases address with
          | error cause => cases h
          | ok a =>
            cases h
            obtain ⟨p, hchars, hp⟩ := Place.parseAddress_eq_ok.mp haddress
            cases hafter : after? "dns://".toList (trim text) with
            | none =>
              rw [hafter] at hchars
              exact ⟨.plain false p, hchars, a, hp, rfl⟩
            | some rest =>
              rw [hafter] at hchars
              refine ⟨.plain true p, ?_, a, hp, rfl⟩
              rw [eq_append_of_after? hafter, ← show p.chars = rest from hchars]
              rfl
  · rintro ⟨f, hchars, hf⟩
    cases f with
    | tls p name =>
      rw [parseChars_of_tls hchars.symm]
      exact parseTls_eq_ok_iff.mpr ⟨p, name, rfl, hf⟩
    | plain marked p =>
      obtain ⟨a, hp, rfl⟩ := hf
      have hslash : '/' ∉ p.chars := hp.notMem (by decide)
      have hscheme : occurs "://".toList p.chars = false :=
        Bool.eq_false_iff.mpr fun h => hslash (mem_of_occurs h (by decide))
      have haddress := Place.parseAddress_eq_ok.mpr ⟨p, rfl, hp⟩
      cases marked with
      | true =>
        rw [parseChars_of_dns hchars.symm hscheme, haddress]
        rfl
      | false =>
        have htext : trim text = p.chars := hchars.symm
        unfold parseChars
        dsimp only
        rw [htext, if_neg hp.chars_ne_nil, after?_eq_none (by decide) hslash,
          after?_eq_none (by decide) hslash]
        dsimp only [Option.getD_none]
        rw [if_neg (Bool.eq_false_iff.mp hscheme), haddress]
        rfl

/-- An endpoint text has its parts in one way only. -/
theorem Spelling.unique {f g : Spelling} {e e' : Endpoint} (hf : f.Means e) (hg : g.Means e')
    (h : f.chars = g.chars) : f = g ∧ e = e' := by
  have slash {marked : Bool} {p : Place} {a : SocketAddress} (hp : p.Means defaultService a) :
      '/' ∈ (plain marked p).chars ↔ marked = true := by
    have hslash : '/' ∉ p.chars := hp.notMem (by decide)
    cases marked with
    | true => exact iff_of_true (List.mem_append_left _ (by decide)) rfl
    | false => exact iff_of_false hslash Bool.false_ne_true
  have apart {marked : Bool} {p q : Place} {name : Option (List Char)} {a : SocketAddress}
      (hp : p.Means defaultService a) : (plain marked p).chars ≠ (tls q name).chars := by
    intro h
    have hmarked : marked = true := by
      rw [← slash hp, h]
      exact List.mem_append_left _ (by decide)
    rw [hmarked] at h
    exact absurd (List.cons.inj h).1 (by decide)
  cases f with
  | plain marked p =>
    obtain ⟨a, hp, rfl⟩ := hf
    cases g with
    | plain marked' q =>
      obtain ⟨b, hq, rfl⟩ := hg
      obtain rfl : marked = marked' := by rw [Bool.eq_iff_iff, ← slash hp, ← slash hq, h]
      obtain ⟨rfl, rfl⟩ := hp.unique hq (List.append_cancel_left h)
      exact ⟨rfl, rfl⟩
    | tls q name => exact absurd h (apart hp)
  | tls p name =>
    obtain ⟨a, hp, hname, rfl⟩ := hf
    cases g with
    | plain marked q =>
      obtain ⟨b, hq, rfl⟩ := hg
      exact absurd h.symm (apart hq)
    | tls q name' =>
      obtain ⟨b, hq, hname', rfl⟩ := hg
      have hrest := List.append_cancel_left h
      have hmark : '#' ∉ p.chars := hp.notMem (by decide)
      have hmark' : '#' ∉ q.chars := hq.notMem (by decide)
      have hplace : p.chars = q.chars := by
        rw [← takeWhile_behind hmark name, hrest, takeWhile_behind hmark' name']
      obtain ⟨rfl, rfl⟩ := hp.unique hq hplace
      obtain rfl := behind_injective (List.append_cancel_left hrest)
      exact ⟨rfl, rfl⟩

/-- What is read is what the grammar allows, as it says, and each text is read in one way. -/
theorem parse_exact (s : String) :
    (∀ e, parse s = .ok e ↔ ∃ f : Spelling, f.chars = trim s.toList ∧ f.Means e) ∧
    (∀ (f g : Spelling) (e e' : Endpoint), f.Means e → g.Means e' → f.chars = g.chars →
      f = g ∧ e = e') ∧
    ((∃ cause, parse s = .error cause) ↔
      ∀ (f : Spelling) (e : Endpoint), f.chars = trim s.toList → ¬f.Means e) := by
  refine ⟨fun e => parseChars_eq_ok_iff, fun f g e e' => Spelling.unique, ?_⟩
  have hread (e : Endpoint) : parse s = .ok e ↔ ∃ f : Spelling, f.chars = trim s.toList ∧ f.Means e :=
    parseChars_eq_ok_iff
  constructor
  · rintro ⟨cause, hcause⟩ f e hchars hf
    rw [(hread e).mpr ⟨f, hchars, hf⟩] at hcause
    cases hcause
  · intro hnone
    cases hparse : parse s with
    | error cause => exact ⟨cause, rfl⟩
    | ok e =>
      obtain ⟨f, hchars, hf⟩ := (hread e).mp hparse
      exact absurd hf (hnone f e hchars)

/-- An address of version 6 that ends in a dotted one, a service number with a sign and a zero in
front, and a server name with a sign of its own. -/
theorem parse_exact_boxed :
    let f : Spelling :=
      .tls ⟨true, "0::FFFF:1.2.3.4".toList, some "+0853".toList⟩ (some "a#b".toList)
    let e : Endpoint := .tls ⟨.v6 ⟨[0, 0, 0, 0, 0, 0xFFFF, 0x102, 0x304], rfl⟩, 853⟩ "a#b"
    f.chars = trim " tls://[0::FFFF:1.2.3.4]:+0853#a#b\n".toList ∧ f.Means e ∧
      parse " tls://[0::FFFF:1.2.3.4]:+0853#a#b\n" = .ok e ∧
      ∀ (g : Spelling) (e' : Endpoint), g.chars = f.chars → g.Means e' → g = f ∧ e' = e := by
  intro f e
  obtain ⟨hread, hunique, -⟩ := parse_exact " tls://[0::FFFF:1.2.3.4]:+0853#a#b\n"
  have hchars : f.chars = trim " tls://[0::FFFF:1.2.3.4]:+0853#a#b\n".toList := by decide
  have hmeans : f.Means e := by
    refine ⟨e.address, ⟨IPAddress.parse?_eq_some.mp rfl, nofun, ?_, fun _ _ => rfl⟩, nofun, rfl⟩
    rintro number ⟨⟩
    exact readWord16?_eq_some.mp rfl
  exact ⟨hchars, hmeans, (hread e).mpr ⟨f, hchars, hmeans⟩,
    fun g e' hg hmeans' => hunique g f e' e hmeans' hmeans hg⟩

/-- Another scheme, a scheme twice, a name, text behind the bracket, a colon with no number. -/
example : ["udp://192.0.2.1", "dns://dns://192.0.2.1", "dns.example", "[::1]53", "192.0.2.1:"].all
    fun s => (parse s).toOption.isNone := by decide

end Endpoint

end DnsFanout
