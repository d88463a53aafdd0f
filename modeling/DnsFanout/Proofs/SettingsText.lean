import DnsFanout.Proofs.Toml.Fields
import DnsFanout.Settings.Storage

/-! Settings are read from their text as they were written. -/

namespace DnsFanout

open Toml

theorem RotationKind.word?_text (k : RotationKind) :
    Value.word? RotationKind.words (.string k.text) = some k := by
  cases k <;> decide

theorem LogFormat.word?_word (f : LogFormat) :
    Value.word? LogFormat.words (.string f.word) = some f := by
  cases f <;> decide

namespace ListenSettings

def lines (s : ListenSettings) : List Line :=
  [.ofNumber "dns_port" s.service.toNat (by decide), .ofText "bind_address" s.host (by decide)]

def toSection (s : ListenSettings) : Section where
  name := "server"
  lines := s.lines
  bare := by decide
  nodup := show fieldNames.Nodup by decide

theorem toChars_toSection (s : ListenSettings) : s.toSection.toChars = s.toChars := by
  simp [toSection, lines, toChars, Section.toChars, Line.toChars, Line.ofNumber, Line.ofText]

-- `fields` stays a variable here, or else the kernel would count up to the bounds of the numbers.
theorem ofValue?_of_fields {s : ListenSettings} {v : Value} {fields : Table}
    (hfields : v.fields? fieldNames = some fields)
    (hservice : ∀ d, fields.field "dns_port" Value.word16? d = some s.service)
    (hhost : ∀ d, fields.field "bind_address" Value.string? d = some s.host) :
    ofValue? v = some s := by
  rw [ofValue?, hfields]
  simp only [Option.bind_eq_bind, Option.bind_some, hservice, hhost]
  rfl

theorem ofValue?_toSection (s : ListenSettings) :
    ofValue? (.table .header s.toSection.table) = some s := by
  have hnames : ∀ l ∈ s.lines, l.key ∈ fieldNames := by
    simp [lines, fieldNames, Line.ofNumber, Line.ofText]
  refine ofValue?_of_fields (s.toSection.fields?_table hnames) ?_ ?_
  · exact s.toSection.field_line List.mem_cons_self (Value.word16?_toNat s.service)
  · exact s.toSection.field_line (List.mem_cons_of_mem _ List.mem_cons_self) rfl

end ListenSettings

namespace LogSettings

def lines (s : LogSettings) : List Line :=
  [.ofText "level" s.level (by decide), .ofText "format" s.format.word (by decide)]

def toSection (s : LogSettings) : Section where
  name := "logging"
  lines := s.lines
  bare := by decide
  nodup := show fieldNames.Nodup by decide

theorem toChars_toSection (s : LogSettings) : s.toSection.toChars = s.toChars := by
  simp [toSection, lines, toChars, Section.toChars, Line.toChars, Line.ofText]

theorem ofValue?_toSection (s : LogSettings) :
    ofValue? (.table .header s.toSection.table) = some s := by
  have hnames : ∀ l ∈ s.lines, l.key ∈ fieldNames := by simp [lines, fieldNames, Line.ofText]
  have hlevel : ∀ d, s.toSection.table.field "level" Value.string? d = some s.level :=
    s.toSection.field_line List.mem_cons_self rfl
  have hformat :
      ∀ d, s.toSection.table.field "format" (Value.word? LogFormat.words) d = some s.format :=
    s.toSection.field_line (List.mem_cons_of_mem _ List.mem_cons_self) s.format.word?_word
  rw [ofValue?, s.toSection.fields?_table hnames]
  simp only [Option.bind_eq_bind, Option.bind_some, hlevel, hformat]
  rfl

end LogSettings

namespace ForwardSettings

def lines (s : ForwardSettings) : List Line :=
  [.ofText "from" s.zone (by decide), .ofTexts "to" s.endpoints (by decide),
    .ofTexts "except" s.excluded (by decide), .ofNumber "max_fails" s.maxFails.toNat (by decide),
    .ofNumber "health_check_interval_ms" s.probeInterval.toNat (by decide),
    .ofNumber "expire_secs" s.expire.toNat (by decide),
    .ofBoolean "force_tcp" s.forceStream (by decide),
    .ofBoolean "prefer_udp" s.preferDatagram (by decide)] ++
  (s.serverName.toList.map fun name => Line.ofText "tls_servername" name (by decide)) ++
  [.ofText "policy" s.rotation.text (by decide),
    .ofNumber "query_timeout_ms" s.timeout.toNat (by decide)]

theorem keys_lines (s : ForwardSettings) :
    s.lines.map Line.key =
      if s.serverName = none then fieldNames.erase "tls_servername" else fieldNames := by
  cases h : s.serverName <;> (rw [lines, h]; rfl)

def toSection (s : ForwardSettings) : Section where
  name := "forward"
  lines := s.lines
  bare := by decide
  nodup := by
    rw [keys_lines]
    split <;> decide

theorem toChars_toSection (s : ForwardSettings) : s.toSection.toChars = s.toChars := by
  cases h : s.serverName <;>
    simp [toSection, lines, toChars, Section.toChars, Line.toChars, Line.ofText, Line.ofTexts,
      Line.ofNumber, Line.ofBoolean, h]

theorem ofValue?_of_fields {s : ForwardSettings} {v : Value} {fields : Table}
    (hfields : v.fields? fieldNames = some fields)
    (hzone : ∀ d, fields.field "from" Value.string? d = some s.zone)
    (hendpoints : ∀ d, fields.field "to" Value.strings? d = some s.endpoints)
    (hexcluded : ∀ d, fields.field "except" Value.strings? d = some s.excluded)
    (hfails : ∀ d, fields.field "max_fails" Value.word32? d = some s.maxFails)
    (hinterval : ∀ d,
      fields.field "health_check_interval_ms" Value.word64? d = some s.probeInterval)
    (hexpire : ∀ d, fields.field "expire_secs" Value.word64? d = some s.expire)
    (hstream : ∀ d, fields.field "force_tcp" Value.boolean? d = some s.forceStream)
    (hdatagram : ∀ d, fields.field "prefer_udp" Value.boolean? d = some s.preferDatagram)
    (hserver : fields.field "tls_servername" (fun v => v.string?.map some) none =
      some s.serverName)
    (hrotation : ∀ d, fields.field "policy" (Value.word? RotationKind.words) d = some s.rotation)
    (htimeout : ∀ d, fields.field "query_timeout_ms" Value.word64? d = some s.timeout) :
    ofValue? v = some s := by
  rw [ofValue?, hfields]
  simp only [Option.bind_eq_bind, Option.bind_some, hzone, hendpoints, hexcluded, hfails,
    hinterval, hexpire, hstream, hdatagram, hserver, hrotation, htimeout]
  rfl

theorem field_serverName (s : ForwardSettings) :
    s.toSection.table.field "tls_servername" (fun v => v.string?.map some) none =
      some s.serverName := by
  cases h : s.serverName with
  | none =>
    refine s.toSection.field_absent ?_ _ none
    show _ ∉ s.lines.map Line.key
    rw [keys_lines, if_pos h]
    decide
  | some name =>
    have hmem : .ofText "tls_servername" name (by decide) ∈ s.lines := by simp [lines, h]
    have hread : (Value.string? (.string name)).map some = some (some name) := rfl
    exact s.toSection.field_line hmem hread none

theorem ofValue?_toSection (s : ForwardSettings) :
    ofValue? (.table .header s.toSection.table) = some s := by
  have hnames : ∀ l ∈ s.lines, l.key ∈ fieldNames := by
    intro l hl
    have hkey := List.mem_map_of_mem (f := Line.key) hl
    rw [keys_lines] at hkey
    split at hkey
    · exact List.mem_of_mem_erase hkey
    · exact hkey
  have read {l : Line} (hl : l ∈ s.lines) {α : Type} {f : Value → Option α} {a : α}
    (h : f l.value = some a) := s.toSection.field_line hl h
  refine ofValue?_of_fields (s.toSection.fields?_table hnames) ?_ ?_ ?_ ?_ ?_ ?_ ?_ ?_
    s.field_serverName ?_ ?_
  · exact read (l := .ofText "from" s.zone (by decide)) (by simp [lines]) rfl
  · exact read (l := .ofTexts "to" s.endpoints (by decide)) (by simp [lines])
      (Value.strings?_map_string _ _)
  · exact read (l := .ofTexts "except" s.excluded (by decide)) (by simp [lines])
      (Value.strings?_map_string _ _)
  · exact read (l := .ofNumber "max_fails" s.maxFails.toNat (by decide)) (by simp [lines])
      (Value.word32?_toNat _)
  · exact read (l := .ofNumber "health_check_interval_ms" s.probeInterval.toNat (by decide))
      (by simp [lines]) (Value.word64?_toNat _)
  · exact read (l := .ofNumber "expire_secs" s.expire.toNat (by decide)) (by simp [lines])
      (Value.word64?_toNat _)
  · exact read (l := .ofBoolean "force_tcp" s.forceStream (by decide)) (by simp [lines]) rfl
  · exact read (l := .ofBoolean "prefer_udp" s.preferDatagram (by decide)) (by simp [lines]) rfl
  · exact read (l := .ofText "policy" s.rotation.text (by decide)) (by simp [lines])
      s.rotation.word?_text
  · exact read (l := .ofNumber "query_timeout_ms" s.timeout.toNat (by decide)) (by simp [lines])
      (Value.word64?_toNat _)

end ForwardSettings

/-! ### The document -/

namespace Settings

def sections (s : Settings) : List Section :=
  [s.listen.toSection, s.forward.toSection, s.log.toSection]

theorem toChars_eq_document (s : Settings) : s.toChars = document s.sections := by
  simp [toChars, document, sections, ListenSettings.toChars_toSection,
    ForwardSettings.toChars_toSection, LogSettings.toChars_toSection]

theorem parse_text (s : Settings) : parse s.text = some (s.sections.map Section.entry) := by
  rw [text, toChars_eq_document]
  exact parse_document (show sectionNames.Nodup by decide)

theorem ofTable?_of_fields {s : Settings} {t fields : Table}
    (hfields : Value.fields? sectionNames (.table .header t) = some fields)
    (hlisten : ∀ d, fields.field "server" ListenSettings.ofValue? d = some s.listen)
    (hforward : ∀ d, fields.field "forward" ForwardSettings.ofValue? d = some s.forward)
    (hlog : ∀ d, fields.field "logging" LogSettings.ofValue? d = some s.log) :
    ofTable? t = some s := by
  rw [ofTable?, hfields]
  simp only [Option.bind_eq_bind, Option.bind_some, hlisten, hforward, hlog]
  rfl

theorem ofTable?_sections (s : Settings) :
    ofTable? (s.sections.map Section.entry) = some s := by
  have hnames : ∀ x ∈ s.sections.map Section.entry, x.1 ∈ sectionNames := by
    simp [sections, Section.entry, sectionNames, ListenSettings.toSection,
      ForwardSettings.toSection, LogSettings.toSection]
  refine ofTable?_of_fields (Value.fields?_of_forall hnames .header) ?_ ?_ ?_
  · exact fun _ => s.listen.ofValue?_toSection
  · exact fun _ => s.forward.ofValue?_toSection
  · exact fun _ => s.log.ofValue?_toSection

theorem read_text (s : Settings) : read s.text = .ok s := by
  rw [read, parse_text, Option.bind_some, ofTable?_sections]

/-- Saving writes one text, and the settings read from that text are the ones saved. -/
theorem save_readable (s : Settings) :
    ∃ text, read text = .ok s ∧
      ∀ {m : Type → Type} [Monad m] [Storage m] (path : String),
        save (m := m) path s = (do
          match ← Storage.write path text with
          | .ok () => return .ok ()
          | .error reason => return .error (.unwritable path reason)) :=
  ⟨s.text, read_text s, fun _ => rfl⟩

end Settings

end DnsFanout
