import PocketCalculator.Proofs.JsonDocuments
import PocketCalculator.Proofs.TomlDocuments
import PocketCalculator.Proofs.WrittenFiles
import PocketCalculator.Proofs.YamlDocuments

namespace PocketCalculator.Proofs.SavedSettings

open PocketCalculator.Settings
open PocketCalculator.Proofs.PlainDocuments
open PocketCalculator.Proofs.WrittenFiles

theorem kept_eq_self {format : Format} (document : Document) (h : format ≠ .toml) :
    kept format document = document := by
  have hkeeps (s : Scalar) : keeps format s = true := by
    cases format <;> first | rfl | exact absurd rfl h
  have hfilter (entries : List (String × Scalar)) :
      entries.filter (keeps format ·.2) = entries :=
    List.filter_eq_self.mpr fun entry _ => hkeeps entry.2
  simp only [kept, hfilter]

theorem exists_text (format : Format) {document : Document} (h : IsPlain document)
    (hne : document.members ≠ []) :
    ∃ text, format.write? document = some text ∧
      format.read text = some (kept format document).toValue := by
  cases format with
  | toml => exact TomlDocuments.read_write h
  | yaml =>
    rw [kept_eq_self document (by decide)]
    exact ⟨Yaml.write document, rfl, YamlDocuments.read_write h hne⟩
  | json =>
    rw [kept_eq_self document (by decide)]
    exact ⟨Json.write document, rfl, JsonDocuments.read_write h hne⟩

theorem exists_format {path extension : String}
    (hextension : (Disk.Path.ofText path).extension? = some extension)
    (h : extension ∈ ["toml", "yaml", "yml", "json"]) :
    ∃ format, formatOf path = .ok format := by
  have hknown : ∀ extension ∈ ["toml", "yaml", "yml", "json"],
      ∃ format, Format.ofExtension? extension = some format := by
    simp [Format.ofExtension?]
  obtain ⟨format, hformat⟩ := hknown extension h
  exact ⟨format, by simp only [formatOf, hextension, hformat]⟩

/-- Whether the name of a variable starts with the mark of the settings, in any case. -/
def isMarked (name : String) : Bool :=
  (Text.lower Environment.mark).toList.isPrefixOf ((Text.trim name.toList).map Char.toLower)

theorem read_unmarked {environment : List (String × String)}
    (h : ∀ entry ∈ environment, isMarked entry.1 = false) :
    Environment.read environment = .table [] := by
  rw [Environment.read]
  induction environment with
  | nil => rfl
  | cons entry environment ih =>
    obtain ⟨hentry, hothers⟩ := List.forall_mem_cons.mp h
    obtain ⟨name, text⟩ := entry
    have hpath : Environment.keyPath name = [] := by
      rw [isMarked] at hentry
      simp only [Environment.keyPath, hentry, Bool.false_eq_true, if_false]
    simp only [List.foldl_cons, hpath]
    exact ih hothers

theorem capacity_le_of_validate {settings : Settings} (h : settings.validate = .ok settings) :
    settings.historyCapacity ≤ History.maxCapacity := by
  unfold validate at h
  split at h
  case isTrue => cases h
  case isFalse =>
    split at h
    case isTrue => cases h
    case isFalse hlarge => exact Nat.le_of_not_lt hlarge

theorem exists_save {settings : Settings} {disk : Disk} {path text : String} {format : Format}
    (hformat : formatOf path = .ok format)
    (htext : format.write? settings.document = some text)
    (hwritable : IsWritable disk (Disk.Path.ofText path)) :
    ∃ saved, settings.save disk path = .ok saved ∧
      saved.text? (Disk.Path.ofText path) = some text := by
  obtain ⟨hfolders, hwrite⟩ := hwritable
  obtain ⟨saved, hsaved⟩ := exists_write text hwrite
  refine ⟨saved, ?_, text?_of_write hsaved⟩
  cases hmade : disk.makeFolders (Disk.Path.ofText path).parent with
  | mk made reached =>
    rw [hmade] at hfolders hsaved
    subst hfolders
    simp only [save, trySave, hformat, hmade, htext, hsaved]

theorem loadFile_text {settings : Settings} {disk : Disk} {environment : List (String × String)}
    {path text : String} {format : Format} (hvalid : settings.validate = .ok settings)
    (hformat : formatOf path = .ok format)
    (htext : disk.text? (Disk.Path.ofText path) = some text)
    (hread : format.read text = some (kept format settings.document).toValue)
    (henvironment : Environment.read environment = .table []) :
    loadFile disk environment path = .ok settings := by
  have hne : path ≠ "" := by
    rintro rfl
    cases hformat
  have hlayer : fileLayer? disk path format = some (kept format settings.document).toValue := by
    simp only [fileLayer?, htext, hread]
  have hvalue := ofValue?_document (capacity_le_of_validate hvalid)
  simp only [loadFile, hne, has_of_text? htext, hformat, hlayer, henvironment, ofLayers,
    stack_kept, hvalue, hvalid, Bool.not_true, Bool.false_eq_true, or_self, if_false]

/-- Settings that are saved to a file are what is loaded from it. -/
theorem loadFile_save {settings : Settings} {disk : Disk} {environment : List (String × String)}
    {path extension : String} (hvalid : settings.validate = .ok settings)
    (hextension : (Disk.Path.ofText path).extension? = some extension)
    (hformat : extension ∈ ["toml", "yaml", "yml", "json"])
    (hwritable : IsWritable disk (Disk.Path.ofText path))
    (henvironment : ∀ entry ∈ environment, isMarked entry.1 = false) :
    ∃ saved, settings.save disk path = .ok saved ∧
      loadFile saved environment path = .ok settings := by
  obtain ⟨format, hformat⟩ := exists_format hextension hformat
  have hplain := isPlain_document (capacity_le_of_validate hvalid)
  have hmembers : settings.document.members ≠ [] := by simp [document, LogSettings.scalars]
  obtain ⟨text, hwrite, hread⟩ := exists_text format hplain hmembers
  obtain ⟨saved, hsaved, htext⟩ := exists_save hformat hwrite hwritable
  exact ⟨saved, hsaved, loadFile_text hvalid hformat htext hread (read_unmarked henvironment)⟩

/-- A log level that is no level at all, and a file whose name takes quotes. -/
def quotedSettings : Settings :=
  { historyCapacity := 7, angleUnit := .degrees, log := { level := "no\n\u0085", file := "a: #b" } }

theorem loadFile_save_quotedSettings :
    ∃ saved, quotedSettings.save ⟨[], []⟩ "home/ganit.yml" = .ok saved ∧
      loadFile saved [("HOME", "/root")] "home/ganit.yml" = .ok quotedSettings :=
  loadFile_save (by decide)
    (show (Disk.Path.ofText "home/ganit.yml").extension? = some "yml" by decide) (by decide)
    ⟨by decide, by decide⟩ (by decide)

end PocketCalculator.Proofs.SavedSettings
