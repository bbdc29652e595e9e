import PocketCalculator.Proofs.EnvironmentTrees
import PocketCalculator.Proofs.SavedSettings
import PocketCalculator.Proofs.TomlTrees
import PocketCalculator.Proofs.YamlTrees

namespace PocketCalculator.Proofs.SettingLayers

open PocketCalculator.Settings
open PocketCalculator.Proofs.LayeredTrees
open PocketCalculator.Proofs.PlainDocuments
open PocketCalculator.Proofs.YamlTrees (IsAny)

/-- The layer below all others. -/
def defaults : Value := (document {}).toValue

/-- A setting: where it stands in a tree, how it is read there, and what it is by default. No table
is read as a setting, unless its only entry is empty. -/
structure Leaf (α : Type) where
  path : List String
  decode : Value → Option α
  default : α
  written : Scalar
  at?_defaults : at? path defaults = some (.scalar written)
  decode_written : decode (.scalar written) = some default
  not_isTable : ∀ {v : Value} {x : α}, decode v = some x → IsTree IsFull v → ¬ IsTable v

namespace Leaf

variable {α : Type} {leaf : Leaf α} {layer : Value} {layers : List Value}

/-- What a tree says that a setting is. -/
def read? (leaf : Leaf α) (tree : Value) : Option α := (at? leaf.path tree).bind leaf.decode

/-- What a setting is with some layers, the uppermost one first: what the first of them says that
sets it, or the default. -/
def resolve (leaf : Leaf α) (layers : List Value) : α :=
  ((layers.findSome? (at? leaf.path)).bind leaf.decode).getD leaf.default

/-- Whether a layer does with a setting what it may: only tables stand on the way to it, and what
stands there is read. -/
structure IsTyped (leaf : Leaf α) (layer : Value) : Prop where
  opens : Opens leaf.path layer
  decodes : ∀ v ∈ at? leaf.path layer, (leaf.decode v).isSome

instance (leaf : Leaf α) (layer : Value) : Decidable (leaf.IsTyped layer) :=
  decidable_of_iff
    (Opens leaf.path layer ∧ ∀ v ∈ at? leaf.path layer, (leaf.decode v).isSome)
    ⟨fun h => ⟨h.1, h.2⟩, fun h => ⟨h.opens, h.decodes⟩⟩

theorem IsTyped.not_isTable (h : leaf.IsTyped layer) (htree : IsTree IsFull layer) {v : Value}
    (hv : at? leaf.path layer = some v) : ¬ IsTable v := by
  obtain ⟨x, hx⟩ := Option.isSome_iff_exists.mp (h.decodes v hv)
  exact leaf.not_isTable hx (htree.at? hv)

theorem replaces_defaults (leaf : Leaf α) (upper : Value) :
    Replaces leaf.path defaults upper := by
  intro old new hold _
  obtain rfl := Option.some.inj (leaf.at?_defaults.symm.trans hold)
  exact overlay_of_not_isTable (.inl nofun)

theorem IsTyped.replaces {upper : Value} (hlower : leaf.IsTyped layer)
    (hupper : leaf.IsTyped upper) (hfull : IsTree IsFull layer ∨ IsTree IsFull upper) :
    Replaces leaf.path layer upper := by
  intro old new hold hnew
  rcases hfull with hfull | hfull
  · exact overlay_of_not_isTable (.inl (hlower.not_isTable hfull hold))
  · exact overlay_of_not_isTable (.inr (hupper.not_isTable hfull hnew))

/-- In layers over each other a setting is what the uppermost one says that sets it. -/
theorem read?_stack (htree : ∀ layer ∈ layers, IsTree IsAny layer)
    (hfull : layers.Pairwise fun lower upper => IsTree IsFull lower ∨ IsTree IsFull upper)
    (htyped : ∀ layer ∈ layers, leaf.IsTyped layer) :
    leaf.read? (stack layers) = some (leaf.resolve layers.reverse) := by
  have hopens : ∀ layer ∈ defaults :: layers, Opens leaf.path layer :=
    List.forall_mem_cons.mpr
      ⟨opens_of_at? leaf.at?_defaults, fun layer hlayer => (htyped layer hlayer).opens⟩
  have hreplace : (defaults :: layers).Pairwise (Replaces leaf.path) := by
    refine List.pairwise_cons.mpr ⟨fun upper _ => leaf.replaces_defaults upper, ?_⟩
    exact hfull.imp_of_mem fun hlower hupper h =>
      (htyped _ hlower).replaces (htyped _ hupper) h
  have hat : at? leaf.path (stack layers) =
      some ((layers.reverse.findSome? (at? leaf.path)).getD (.scalar leaf.written)) := by
    obtain ⟨hat, -⟩ := at?_foldl_overlay htree hopens hreplace
    exact hat.trans (by simp [List.findSome?_append, leaf.at?_defaults])
  rw [read?, hat, Option.bind_some, resolve]
  cases hfound : layers.reverse.findSome? (at? leaf.path) with
  | none => exact leaf.decode_written
  | some v =>
      obtain ⟨layer, hlayer, hv⟩ := List.exists_of_findSome?_eq_some hfound
      obtain ⟨x, hx⟩ :=
        Option.isSome_iff_exists.mp ((htyped layer (List.mem_reverse.mp hlayer)).decodes v hv)
      simp [hx]

end Leaf

theorem not_isTable_of_decode {α : Type} {decode : Value → Option α}
    (h : ∀ entries, decode (.table entries) = none) {v : Value} {x : α} (hx : decode v = some x) :
    ¬ IsTable v := by
  cases v with
  | table entries => cases (h entries).symm.trans hx
  | scalar s => exact nofun
  | fraction written => exact nofun
  | list items => exact nofun

theorem not_isTable_of_asChoice {α : Type} {choices : List α} {name : α → String} {v : Value}
    {x : α} (hx : v.asChoice? choices name = some x) (h : IsTree IsFull v) : ¬ IsTable v := by
  unfold Value.asChoice? at hx
  split at hx
  · exact nofun
  · obtain ⟨-, hvalues⟩ := isTree_table.mp h
    cases hvalues _ List.mem_cons_self with
    | scalar hempty => exact absurd rfl hempty
  · cases hx

def capacity : Leaf Nat where
  path := ["history_capacity"]
  decode := Value.asCount?
  default := History.defaultCapacity
  written := .integer History.defaultCapacity
  at?_defaults := rfl
  decode_written := rfl
  not_isTable := fun h _ => not_isTable_of_decode (fun _ => rfl) h

/-- A setting that is on or off, and on by default. -/
def switch (path : List String) (h : at? path defaults = some (.scalar (.truth true))) :
    Leaf Bool where
  path := path
  decode := Value.asTruth?
  default := true
  written := .truth true
  at?_defaults := h
  decode_written := rfl
  not_isTable := fun h _ => not_isTable_of_decode (fun _ => rfl) h

/-- A setting that is one of some choices. -/
def choice {α : Type} (path : List String) (choices : List α) (name : α → String) (default : α)
    (h : at? path defaults = some (.scalar (.text (name default))))
    (hname : choices.find? (name · == name default) = some default) : Leaf α where
  path := path
  decode := Value.asChoice? choices name
  default := default
  written := .text (name default)
  at?_defaults := h
  decode_written := hname
  not_isTable := not_isTable_of_asChoice

def scientific : Leaf Bool := switch ["scientific"] rfl

def angleUnit : Leaf Calculation.AngleUnit :=
  choice ["angle_unit"] [.radians, .degrees] Calculation.AngleUnit.name .radians rfl (by decide)

def language : Leaf Locale.Language :=
  choice ["language"] Locale.Language.all Locale.Language.code .english rfl (by decide)

def defaultCategory : Leaf Measure.Category :=
  choice ["default_category"] Measure.Category.all Measure.Category.name .length rfl (by decide)

def logLevel : Leaf String where
  path := ["log", "level"]
  decode := Value.asText?
  default := "warn"
  written := .text "warn"
  at?_defaults := rfl
  decode_written := rfl
  not_isTable := fun h _ => not_isTable_of_decode (fun _ => rfl) h

def logConsole : Leaf Bool := switch ["log", "console"] rfl

def logFile : Leaf (Option String) where
  path := ["log", "file"]
  decode := Value.asOptionalText?
  default := none
  written := .empty
  at?_defaults := rfl
  decode_written := rfl
  not_isTable := fun h _ => not_isTable_of_decode (fun _ => rfl) h

def logFormat : Leaf LogFormat :=
  choice ["log", "format"] LogFormat.all LogFormat.name .compact rfl (by decide)

def logAnsi : Leaf Bool := switch ["log", "ansi"] rfl

/-- The settings with some layers, the uppermost one first, each setting by itself. -/
def resolved (layers : List Value) : Settings where
  historyCapacity := capacity.resolve layers
  scientific := scientific.resolve layers
  angleUnit := angleUnit.resolve layers
  language := language.resolve layers
  defaultCategory := defaultCategory.resolve layers
  log :=
    { level := logLevel.resolve layers
      console := logConsole.resolve layers
      file := logFile.resolve layers
      format := logFormat.resolve layers
      ansi := logAnsi.resolve layers }

def leaves : List ((α : Type) × Leaf α) :=
  [⟨_, capacity⟩, ⟨_, scientific⟩, ⟨_, angleUnit⟩, ⟨_, language⟩, ⟨_, defaultCategory⟩,
    ⟨_, logLevel⟩, ⟨_, logConsole⟩, ⟨_, logFile⟩, ⟨_, logFormat⟩, ⟨_, logAnsi⟩]

/-- The settings that are in a layer are of the right kinds, in a log section if they belong there.
Nothing is said of other keys. -/
def IsTyped (layer : Value) : Prop := ∀ leaf ∈ leaves, leaf.2.IsTyped layer

instance (layer : Value) : Decidable (IsTyped layer) :=
  inferInstanceAs (Decidable (∀ leaf ∈ leaves, leaf.2.IsTyped layer))

section

variable {α : Type} {leaf : Leaf α} {tree : Value} {place : List String} {key : String} {x : α}

theorem exists_entries (hpath : leaf.path = place ++ [key]) (h : leaf.read? tree = some x) :
    ∃ entries, at? place tree = some (.table entries) := by
  obtain ⟨v, hv, -⟩ := Option.bind_eq_some_iff.mp h
  rw [hpath, at?_append] at hv
  obtain ⟨inner, hinner, hv⟩ := Option.bind_eq_some_iff.mp hv
  cases inner with
  | table entries => exact ⟨entries, hinner⟩
  | scalar s => cases hv
  | fraction written => cases hv
  | list items => cases hv

theorem field?_of_read {entries : Table} (default : α) (hpath : leaf.path = place ++ [key])
    (hentries : at? place tree = some (.table entries)) (h : leaf.read? tree = some x) :
    entries.field? key default leaf.decode = some x := by
  obtain ⟨v, hv, hx⟩ := Option.bind_eq_some_iff.mp h
  rw [hpath, at?_append, hentries, Option.bind_some] at hv
  obtain ⟨found, hfound, ⟨⟩⟩ := Option.bind_eq_some_iff.mp hv
  rw [Table.field?, hfound]
  exact hx

end

theorem ofValue?_logFields {entries : Table} {log : LogSettings}
    (hlevel : entries.field? "level" "warn" Value.asText? = some log.level)
    (hconsole : entries.field? "console" true Value.asTruth? = some log.console)
    (hfile : entries.field? "file" none Value.asOptionalText? = some log.file)
    (hformat : entries.field? "format" .compact (Value.asChoice? LogFormat.all LogFormat.name) =
      some log.format)
    (hansi : entries.field? "ansi" true Value.asTruth? = some log.ansi) :
    LogSettings.ofValue? (.table entries) = some log := by
  simp [LogSettings.ofValue?, Value.asFields?, hlevel, hconsole, hfile, hformat, hansi]

theorem ofValue?_fields {entries : Table} {settings : Settings}
    (hcapacity : entries.field? "history_capacity" History.defaultCapacity Value.asCount? =
      some settings.historyCapacity)
    (hscientific : entries.field? "scientific" true Value.asTruth? = some settings.scientific)
    (hangle : entries.field? "angle_unit" .radians
      (Value.asChoice? [.radians, .degrees] Calculation.AngleUnit.name) = some settings.angleUnit)
    (hlanguage : entries.field? "language" .english
      (Value.asChoice? Locale.Language.all Locale.Language.code) = some settings.language)
    (hcategory : entries.field? "default_category" .length
      (Value.asChoice? Measure.Category.all Measure.Category.name) = some settings.defaultCategory)
    (hlog : entries.field? "log" {} LogSettings.ofValue? = some settings.log) :
    ofValue? (.table entries) = some settings := by
  simp [ofValue?, Value.asFields?, hcapacity, hscientific, hangle, hlanguage, hcategory, hlog]

theorem ofValue?_stack {layers : List Value} (htree : ∀ layer ∈ layers, IsTree IsAny layer)
    (hfull : layers.Pairwise fun lower upper => IsTree IsFull lower ∨ IsTree IsFull upper)
    (htyped : ∀ layer ∈ layers, IsTyped layer) :
    ofValue? (stack layers) = some (resolved layers.reverse) := by
  have hread {α : Type} (leaf : Leaf α) (hleaf : ⟨α, leaf⟩ ∈ leaves) :
      leaf.read? (stack layers) = some (leaf.resolve layers.reverse) :=
    Leaf.read?_stack htree hfull fun layer hlayer => htyped layer hlayer ⟨α, leaf⟩ hleaf
  have hcapacity := hread capacity (by simp [leaves])
  obtain ⟨entries, hentries⟩ : ∃ entries, at? [] (stack layers) = some (.table entries) :=
    exists_entries rfl hcapacity
  have hlevel := hread logLevel (by simp [leaves])
  obtain ⟨log, hlog⟩ : ∃ log, at? ["log"] (stack layers) = some (.table log) :=
    exists_entries rfl hlevel
  have hsection : LogSettings.ofValue? (.table log) = some (resolved layers.reverse).log :=
    ofValue?_logFields (field?_of_read _ rfl hlog hlevel)
      (field?_of_read _ rfl hlog (hread logConsole (by simp [leaves])))
      (field?_of_read _ rfl hlog (hread logFile (by simp [leaves])))
      (field?_of_read _ rfl hlog (hread logFormat (by simp [leaves])))
      (field?_of_read _ rfl hlog (hread logAnsi (by simp [leaves])))
  have hstack : stack layers = .table entries := Option.some.inj hentries
  rw [hstack] at hlog ⊢
  obtain ⟨found, hfound, ⟨⟩⟩ := Option.bind_eq_some_iff.mp hlog
  refine ofValue?_fields (field?_of_read _ rfl hentries hcapacity)
    (field?_of_read _ rfl hentries (hread scientific (by simp [leaves])))
    (field?_of_read _ rfl hentries (hread angleUnit (by simp [leaves])))
    (field?_of_read _ rfl hentries (hread language (by simp [leaves])))
    (field?_of_read _ rfl hentries (hread defaultCategory (by simp [leaves]))) ?_
  rw [Table.field?, hfound]
  exact hsection

theorem validate_eq_ok_iff {settings loaded : Settings} :
    settings.validate = .ok loaded ↔
      loaded = settings ∧ 1 ≤ settings.historyCapacity ∧ settings.historyCapacity ≤ 10000 := by
  have hmax : History.maxCapacity = 10000 := rfl
  unfold validate
  split
  case isTrue hzero => simp [hzero]
  case isFalse hzero =>
    split
    case isTrue hlarge => simp; omega
    case isFalse hlarge =>
      constructor
      · rintro ⟨⟩
        exact ⟨rfl, by omega, by omega⟩
      · rintro ⟨rfl, -⟩
        rfl

theorem isTree_fileLayer {disk : Disk} {path : String} {format : Format}
    {allowed : Scalar → Prop} {layer : Value}
    (h : fileLayer? disk path format = some layer)
    (hread : ∀ {text v}, format.read text = some v → IsTree allowed v) : IsTree allowed layer := by
  unfold fileLayer? at h
  split at h
  · exact hread h
  · cases h
    exact isTree_nil

theorem fileLayer?_of_write {disk : Disk} {path : String} {format : Format} {document : Document}
    (h : IsPlain document) (hne : document.members ≠ [])
    (htext : disk.text? (Disk.Path.ofText path) = format.write? document) :
    fileLayer? disk path format = some (kept format document).toValue := by
  obtain ⟨text, hwrite, hread⟩ := SavedSettings.exists_text format h hne
  rw [fileLayer?, htext, hwrite]
  exact hread

theorem isPlain_of_keys {document : Document} (hname : document.name = "log")
    (hentries : ∀ entry ∈ document.entries ++ document.members,
      entry.1 ∈ keys ++ LogSettings.keys ∧ ∀ n, entry.2 ≠ .integer n)
    (hdistinct : (document.entries.map (·.1) ++ [document.name]).Nodup)
    (hmembers : (document.members.map (·.1)).Nodup) : IsPlain document where
  name := hname ▸ isKey_setting "log" (by decide)
  keys := fun entry hentry => isKey_setting entry.1 (hentries entry hentry).1
  scalars := fun entry hentry n hn => absurd hn ((hentries entry hentry).2 n)
  distinct := hdistinct
  distinctMembers := hmembers

/-- Each setting that is loaded is taken from the environment, or else from the YAML file, or else
from the TOML file, or else it is the default; and the settings are loaded if a history of their
capacity may be kept. -/
theorem load_resolved {disk : Disk} {environment : List (String × String)} {toml yaml : Value}
    (htoml : fileLayer? disk "config/ganit.toml" .toml = some toml)
    (hyaml : fileLayer? disk "config/ganit.yaml" .yaml = some yaml)
    (htyped : ∀ layer ∈ [toml, yaml, Environment.read environment], IsTyped layer) :
    (∀ settings, load disk environment = .ok settings →
      settings = resolved [Environment.read environment, yaml, toml]) ∧
    ((∃ settings, load disk environment = .ok settings) ↔
      1 ≤ (resolved [Environment.read environment, yaml, toml]).historyCapacity ∧
        (resolved [Environment.read environment, yaml, toml]).historyCapacity ≤ 10000) := by
  have htomlFull : IsTree IsFull toml := isTree_fileLayer htoml TomlTrees.isTree_toml
  have hyamlTree : IsTree IsAny yaml := isTree_fileLayer hyaml YamlTrees.isTree_yaml
  have henvironment := EnvironmentTrees.isTree_environment environment
  have hvalue : ofValue? (stack [toml, yaml, Environment.read environment]) =
      some (resolved [Environment.read environment, yaml, toml]) := by
    refine ofValue?_stack ?_ ?_ htyped
    · have htomlTree : IsTree IsAny toml := htomlFull.mono fun _ _ => trivial
      have htree : IsTree IsAny (Environment.read environment) :=
        henvironment.mono fun _ _ => trivial
      simp [htomlTree, hyamlTree, htree]
    · simp [htomlFull, henvironment]
  have hload : load disk environment =
      (resolved [Environment.read environment, yaml, toml]).validate := by
    simp [load, sharedPaths, htoml, hyaml, ofLayers, hvalue]
  simp only [hload, validate_eq_ok_iff]
  constructor
  · rintro settings ⟨hsettings, -⟩
    exact hsettings
  · simp

def mixedToml : Document :=
  ⟨[("scientific", .truth false)], "log", [("level", .text "info"), ("file", .text "log")]⟩

def mixedYaml : Document := ⟨[("language", .text "hi")], "log", [("console", .truth false)]⟩

def mixedDisk : Disk := Disk.ofFiles
  [("config/ganit.toml", "scientific = false\n\n[log]\nlevel = \"info\"\nfile = \"log\"\n"),
    ("config/ganit.yaml", "language: hi\nlog:\n  console: false\n")]

def mixedVariables : List (String × String) :=
  [("GANIT_LOG__LEVEL", "debug"), ("GANIT_HISTORY_CAPACITY", "30")]

theorem load_resolved_mixed :
    load mixedDisk mixedVariables = .ok
      { historyCapacity := 30, scientific := false, language := .hindi,
        log := { level := "debug", console := false, file := some "log" } } := by
  have hplainToml : IsPlain mixedToml :=
    isPlain_of_keys rfl (by simp [mixedToml, keys, LogSettings.keys]) (by decide) (by decide)
  have hplainYaml : IsPlain mixedYaml :=
    isPlain_of_keys rfl (by simp [mixedYaml, keys, LogSettings.keys]) (by decide) (by decide)
  have htoml : fileLayer? mixedDisk "config/ganit.toml" .toml = some mixedToml.toValue :=
    fileLayer?_of_write hplainToml (List.cons_ne_nil _ _) (by decide +kernel)
  have hyaml : fileLayer? mixedDisk "config/ganit.yaml" .yaml = some mixedYaml.toValue :=
    fileLayer?_of_write hplainYaml (List.cons_ne_nil _ _) (by decide +kernel)
  have htyped : ∀ layer ∈ [mixedToml.toValue, mixedYaml.toValue, Environment.read mixedVariables],
      IsTyped layer := by decide +kernel
  obtain ⟨hvalue, hload⟩ := load_resolved htoml hyaml htyped
  obtain ⟨settings, hsettings⟩ := hload.mpr (by decide +kernel)
  rw [hsettings, hvalue settings hsettings]
  decide +kernel

end PocketCalculator.Proofs.SettingLayers
