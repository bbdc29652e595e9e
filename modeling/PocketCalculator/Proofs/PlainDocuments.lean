import PocketCalculator.Settings.Storage

namespace PocketCalculator.Proofs.PlainDocuments

open PocketCalculator.Settings

theorem put_eq_append {key : String} {entries : Table} (value : Value)
    (h : key ∉ entries.map (·.1)) : Table.put key value entries = entries ++ [(key, value)] := by
  induction entries with
  | nil => rfl
  | cons entry rest ih =>
    simp only [List.map_cons, List.mem_cons, not_or] at h
    rw [Table.put, if_neg (Ne.symm h.1), ih h.2, List.cons_append]

/-- The entries as they are read. -/
def tableOf (entries : List (String × Scalar)) : Table :=
  entries.map fun (key, s) => (key, .scalar s)

/-- An entry of a table, with the text of its value. -/
structure Field where
  key : String
  text : List Char
  value : Value

def Field.entry (field : Field) : String × Value := (field.key, field.value)

theorem put_field {entries : Table} {field : Field} {fields : List Field}
    (h : (entries.map (·.1) ++ (field :: fields).map (·.key)).Nodup) :
    Table.put field.key field.value entries = entries ++ [field.entry] := by
  apply put_eq_append
  simp only [List.map_cons, List.nodup_append, List.mem_cons] at h
  exact fun hmem => h.2.2 _ hmem _ (.inl rfl) rfl

def isKeyLetter (c : Char) : Bool := c.isLower || c == '_'

structure IsKey (key : String) : Prop where
  nonempty : key.toList ≠ []
  short : key.toList.length ≤ Yaml.maxKeyLength
  letters : ∀ c ∈ key.toList, isKeyLetter c

theorem exists_key {key : String} (h : IsKey key) :
    ∃ c cs, key.toList = c :: cs ∧ isKeyLetter c := by
  obtain ⟨c, cs, hkey⟩ := List.exists_cons_of_ne_nil h.nonempty
  exact ⟨c, cs, hkey, h.letters c (by simp [hkey])⟩

/-- The numbers for which every format has room. -/
def IsPlainScalar (s : Scalar) : Prop :=
  ∀ n, s = .integer n → ∃ m : Nat, n = m ∧ m < Nat.pow 2 63

structure IsPlain (document : Document) : Prop where
  name : IsKey document.name
  keys : ∀ entry ∈ document.entries ++ document.members, IsKey entry.1
  scalars : ∀ entry ∈ document.entries ++ document.members, IsPlainScalar entry.2
  distinct : (document.entries.map (·.1) ++ [document.name]).Nodup
  distinctMembers : (document.members.map (·.1)).Nodup

/-- Whether a format has a way to write a scalar. -/
def keeps : Format → Scalar → Bool
  | .toml, .empty => false
  | _, _ => true

/-- What is left of a document when a format has written it. -/
def kept (format : Format) (document : Document) : Document :=
  { document with
    entries := document.entries.filter (keeps format ·.2)
    members := document.members.filter (keeps format ·.2) }

theorem isKey_setting : ∀ key ∈ keys ++ LogSettings.keys, IsKey key := by
  have hkeys : ∀ key ∈ keys ++ LogSettings.keys,
      key.toList ≠ [] ∧ key.toList.length ≤ Yaml.maxKeyLength ∧ key.toList.all isKeyLetter := by
    decide
  intro key hkey
  obtain ⟨hnonempty, hshort, hletters⟩ := hkeys key hkey
  exact ⟨hnonempty, hshort, List.all_eq_true.mp hletters⟩

theorem isPlain_document {settings : Settings}
    (h : settings.historyCapacity ≤ History.maxCapacity) : IsPlain settings.document where
  name := isKey_setting "log" (by decide)
  keys := by
    intro entry hentry
    apply isKey_setting
    revert entry
    simp [document, scalars, LogSettings.scalars, keys, LogSettings.keys]
  scalars := by
    have hcapacity : settings.historyCapacity < Nat.pow 2 63 := Nat.lt_of_le_of_lt h (by decide)
    intro entry hentry n hn
    have hfile : (settings.log.file.map Scalar.text).getD .empty ≠ .integer n := by
      cases settings.log.file <;> simp
    simp only [document, scalars, LogSettings.scalars, List.mem_append, List.mem_cons,
      List.not_mem_nil, or_false] at hentry
    rcases hentry with (rfl | rfl | rfl | rfl | rfl) | rfl | rfl | rfl | rfl | rfl
    case inl.inl =>
      cases hn
      exact ⟨settings.historyCapacity, rfl, hcapacity⟩
    all_goals simp [hfile] at hn
  distinct := by simp [document, scalars]
  distinctMembers := by simp [document, LogSettings.scalars]

theorem asChoice?_name {α : Type} (choices : List α) (name : α → String) {choice : α}
    (hnodup : (choices.map name).Nodup) (hmem : choice ∈ choices) :
    Value.asChoice? choices name (.scalar (.text (name choice))) = some choice := by
  change choices.find? (name · == name choice) = some choice
  induction choices with
  | nil => cases hmem
  | cons first rest ih =>
    obtain ⟨hnew, hnodup⟩ := List.nodup_cons.mp hnodup
    by_cases hname : name first = name choice
    case pos =>
      rcases List.mem_cons.mp hmem with rfl | hmem
      · simp
      · exact absurd (hname ▸ List.mem_map_of_mem hmem) hnew
    case neg =>
      have hrest := (List.mem_cons.mp hmem).resolve_left fun heq => hname (heq ▸ rfl)
      rw [List.find?_cons_of_neg (by simpa using hname), ih hnodup hrest]

theorem ofValue?_logTable (log : LogSettings) :
    LogSettings.ofValue? (.table (tableOf log.scalars)) = some log := by
  obtain ⟨level, console, file, format, ansi⟩ := log
  have hformat := asChoice?_name LogFormat.all LogFormat.name (by decide)
    (show format ∈ LogFormat.all by cases format <;> decide)
  cases file <;>
    simp [LogSettings.ofValue?, tableOf, LogSettings.scalars, Value.asFields?, Table.field?,
      Table.get?, Value.asTruth?, Value.asText?, Value.asOptionalText?, hformat]

theorem ofValue?_document {settings : Settings}
    (h : settings.historyCapacity ≤ History.maxCapacity) :
    ofValue? settings.document.toValue = some settings := by
  have hcapacity : settings.historyCapacity < Nat.pow 2 64 := Nat.lt_of_le_of_lt h (by decide)
  have htree : settings.document.toValue =
      .table (tableOf settings.scalars ++ [("log", .table (tableOf settings.log.scalars))]) := rfl
  rw [htree]
  have hlog := ofValue?_logTable settings.log
  simp only [tableOf] at hlog
  obtain ⟨capacity, scientific, angle, language, category, log⟩ := settings
  have hangle := asChoice?_name [.radians, .degrees] Calculation.AngleUnit.name (by decide)
    (show angle ∈ _ by cases angle <;> decide)
  have hlanguage := asChoice?_name Locale.Language.all Locale.Language.code (by decide)
    (show language ∈ _ by cases language <;> decide)
  have hcategory := asChoice?_name Measure.Category.all Measure.Category.name (by decide)
    (show category ∈ _ by cases category <;> decide)
  simp [ofValue?, tableOf, scalars, Value.asFields?, Table.field?, Table.get?, Value.asCount?,
    Value.asTruth?, hangle, hlanguage, hcategory, hcapacity, hlog]

/-- Laid over the defaults, what a format keeps of the settings is all of them. -/
theorem stack_kept (format : Format) (settings : Settings) :
    stack [(kept format settings.document).toValue, .table []] = settings.document.toValue := by
  cases format <;> cases hfile : settings.log.file <;>
    simp [stack, document, Document.toValue, scalars, LogSettings.scalars, Value.overlay,
      Value.overlayEntries, Value.overlayEntry, Table.get?, Table.put, kept, keeps, hfile]

end PocketCalculator.Proofs.PlainDocuments
