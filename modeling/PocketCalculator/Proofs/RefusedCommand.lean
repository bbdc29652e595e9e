import PocketCalculator.Shell.Console

namespace PocketCalculator.Proofs.RefusedCommand

open PocketCalculator.Shell
open PocketCalculator.Shell.Console

/-- The settings that a session saves: its own language and category, and otherwise those it was
started with. -/
def sessionSettings (console : Console) : Settings :=
  { console.settings with
    language := console.keypad.language
    defaultCategory := console.keypad.converter.category }

/-- What a refused command leaves of a console. Saving and loading a numbered result are the
commands that may leave another one. -/
inductive Leaves (console : Console) : List String → Console → Prop where
  | unchanged {words : List String}
      (load : ∀ index, words = [":load", index] → index? index = none)
      (save : ∀ path, words ≠ [":save-config", path]) : Leaves console words console
  | broughtToFront {index : String} {n : Nat} (number : index? index = some n) :
      Leaves console [":load", index] (console.withKeypad (console.keypad.setTab .calculator))
  | takenOver {path : String} {disk : Disk} (files : disk.files = console.disk.files) :
      Leaves console [":save-config", path]
        { console with settings := sessionSettings console, disk }

variable {console : Console} {fault : Fault}

theorem console_showing {keypad : Except Keypad.Fault Keypad}
    (h : (console.showing keypad).result = .error fault) :
    (console.showing keypad).console = console := by
  unfold showing at h ⊢
  cases keypad with
  | ok keypad => cases h
  | error refusal => rfl

theorem leaves_load {index : String} (h : (console.load index).result = .error fault) :
    Leaves console [":load", index] (console.load index).console := by
  unfold load at h ⊢
  cases hindex : index? index with
  | none =>
      refine .unchanged ?_ (by simp)
      rintro _ ⟨⟩
      exact hindex
  | some n =>
      simp only [hindex] at h ⊢
      rw [console_showing h]
      exact .broughtToFront hindex

theorem files_makeFoldersFrom (disk : Disk) (place steps : List String) :
    (disk.makeFoldersFrom place steps).1.files = disk.files := by
  induction steps generalizing disk place with
  | nil => rfl
  | cons name rest ih =>
      simp only [Disk.makeFoldersFrom]
      split
      · rfl
      split
      · exact ih disk _
      · exact ih _ _

/-- Folders may have been made for a file that cannot be written. -/
theorem files_trySave {settings : Settings} {disk : Disk} {path : String}
    (h : (settings.trySave disk path).2 ≠ .ok ()) :
    (settings.trySave disk path).1.files = disk.files := by
  have hmade : (disk.makeFolders (Disk.Path.ofText path).parent).1.files = disk.files :=
    files_makeFoldersFrom disk _ _
  unfold Settings.trySave at h ⊢
  dsimp only at h ⊢
  split at h
  next => rfl
  generalize disk.makeFolders (Disk.Path.ofText path).parent = made at h hmade ⊢
  obtain ⟨disk', all⟩ := made
  cases all with
  | false => exact hmade
  | true =>
      dsimp only at h hmade ⊢
      split at h
      · exact hmade
      split at h
      · exact hmade
      split at h
      · exact absurd rfl h
      · exact hmade

theorem leaves_saveSettings {path : String}
    (h : (console.saveSettings path).result = .error fault) :
    Leaves console [":save-config", path] (console.saveSettings path).console := by
  refine .takenOver (files_trySave ?_)
  intro hsaved
  simp only [saveSettings] at h
  rw [hsaved] at h
  cases h

theorem leaves_command {line : String} {words : List String}
    (h : (console.command line words).result = .error fault) :
    Leaves console words (console.command line words).console := by
  unfold command at h ⊢
  simp only at h ⊢
  split at h
  next => cases h
  next index => exact leaves_load h
  next => cases h
  next name =>
    rw [console_showing h]
    exact .unchanged (by simp) (by simp)
  next name =>
    rw [console_showing h]
    exact .unchanged (by simp) (by simp)
  next source target =>
    rw [console_showing h]
    exact .unchanged (by simp) (by simp)
  next =>
    rw [console_showing h]
    exact .unchanged (by simp) (by simp)
  next code =>
    cases hcode : Keypad.parseLanguage code with
    | ok language =>
        rw [hcode] at h
        cases h
    | error refusal => exact .unchanged (by simp) (by simp)
  next path => exact leaves_saveSettings h
  next => cases h
  next => cases h

/-- A refused command leaves both sessions and all files as they are. The tab in front changes just
if a numbered result was to be loaded while the converter is in front, and the settings change just
if they were to be saved and the session has another language or category. -/
theorem refused_command {console : Console} {line : String} {words : List String} {fault : Fault}
    (h : (console.command line words).result = .error fault) :
    let after := (console.command line words).console
    (after.keypad.calculator = console.keypad.calculator ∧
      after.keypad.converter = console.keypad.converter ∧ after.disk.files = console.disk.files) ∧
      (after.keypad.tab ≠ console.keypad.tab ↔
        console.keypad.tab = .converter ∧
          ∃ index n, words = [":load", index] ∧ index? index = some n) ∧
      (after.settings ≠ console.settings ↔
        sessionSettings console ≠ console.settings ∧ ∃ path, words = [":save-config", path]) := by
  intro after
  have hleaves : Leaves console words after := leaves_command h
  clear_value after
  cases hleaves with
  | unchanged load save =>
      refine ⟨⟨rfl, rfl, rfl⟩, iff_of_false (by simp) ?_, iff_of_false (by simp) ?_⟩
      · rintro ⟨-, index, n, hwords, hindex⟩
        rw [load index hwords] at hindex
        cases hindex
      · rintro ⟨-, path, hwords⟩
        exact save path hwords
  | broughtToFront number =>
      refine ⟨⟨rfl, rfl, rfl⟩, ?_, iff_of_false (by simp [withKeypad]) (by simp)⟩
      cases htab : console.keypad.tab with
      | calculator => simp [withKeypad, Keypad.setTab]
      | converter => simp [withKeypad, Keypad.setTab, number]
  | takenOver files =>
      refine ⟨⟨rfl, rfl, files⟩, iff_of_false (by simp) (by simp), ?_⟩
      simp

theorem refused_command_units :
    let console := Console.start {} ⟨[], []⟩ ⟨false⟩
    let outcome := console.command ":units m kg" [":units", "m", "kg"]
    outcome.result = .error (.keypad (.unit (.wrongCategory .kilogram .length))) ∧
      ¬ outcome.console.keypad.tab ≠ console.keypad.tab := by
  intro console outcome
  have hresult : outcome.result =
      .error (.keypad (.unit (.wrongCategory .kilogram .length))) := rfl
  exact ⟨hresult, fun hne => by cases ((refused_command hresult).2.1.mp hne).1⟩

/-- The two commands that change something before they are refused: a result that is not there
brings the calculator to the front, and a file of an unknown kind leaves the settings in the
language of the session. -/
theorem refused_commands_change_console :
    let console := Console.start {} ⟨[], []⟩ ⟨false⟩
    let converting := console.withKeypad (console.keypad.setTab .converter)
    let loading := converting.command ":load 0" [":load", "0"]
    let speaking := console.withKeypad (console.keypad.setLanguage .hindi)
    let saving := speaking.command ":save-config s.ini" [":save-config", "s.ini"]
    (loading.result = .error (.keypad (.historyNotFound 0)) ∧
      converting.keypad.tab = .converter ∧ loading.console.keypad.tab = .calculator) ∧
      saving.result = .error (.notSaved "s.ini" (.unsupportedFormat "ini")) ∧
        speaking.settings.language = .english ∧ saving.console.settings.language = .hindi := by
  refine ⟨⟨rfl, rfl, rfl⟩, rfl, rfl, rfl⟩

end PocketCalculator.Proofs.RefusedCommand
