import PocketCalculator.Proofs.ConverterRuns
import PocketCalculator.Proofs.DigitGlyphs
import PocketCalculator.Proofs.HeldTexts
import PocketCalculator.Proofs.KeypadTabs

namespace PocketCalculator.Proofs.AsciiBuffers

open PocketCalculator.Calculator
open PocketCalculator.Locale
open PocketCalculator.Proofs.ContinuedResult (delocalizeChar_of_isDigit)
open PocketCalculator.Proofs.ConverterRuns (setUnits_cases)
open PocketCalculator.Proofs.DigitGlyphs
open PocketCalculator.Proofs.HeldTexts
open PocketCalculator.Proofs.KeypadTabs

theorem ofResults_asciiDigits : OfResults AsciiDigits := by
  refine ⟨asciiDigits_empty, fun negative x hx c hc => ?_⟩
  rw [String.toList_ofList] at hc
  rcases mem_signed hx hc with rfl | hdigit | rfl
  · exact delocalizeChar_eq_self_iff.mp (by decide)
  · exact delocalizeChar_eq_self_iff.mp (delocalizeChar_of_isDigit hdigit)
  · exact delocalizeChar_eq_self_iff.mp (by decide)

theorem asciiDigits_wrapped {opening closing : String} (hopening : delocalize opening = opening)
    (hclosing : delocalize closing = closing) {buffer : String} (h : AsciiDigits buffer) :
    AsciiDigits (opening ++ buffer ++ closing) :=
  asciiDigits_append (asciiDigits_append (delocalize_eq_self_iff.mp hopening) h)
    (delocalize_eq_self_iff.mp hclosing)

theorem asciiDigits_apply (key : String) {buffer : String} (h : AsciiDigits buffer) :
    AsciiDigits ((Key.ofText key).apply buffer) := by
  have happend {text : String} (htext : delocalize text = text) : AsciiDigits (buffer ++ text) :=
    asciiDigits_append h (delocalize_eq_self_iff.mp htext)
  unfold Key.ofText
  split
  · rw [Key.apply]
    split
    · exact asciiDigits_empty
    · exact asciiDigits_wrapped (by decide) (by decide) h
  · exact happend (by decide)
  · rw [Key.apply]
    split
    · exact delocalize_eq_self_iff.mp (by decide)
    · exact asciiDigits_wrapped (by decide) (by decide) h
  · rw [Key.apply]
    split
    · exact delocalize_eq_self_iff.mp (by decide)
    · exact asciiDigits_wrapped (by decide) (by decide) h
  · exact happend (by decide)
  · exact happend (by decide)
  · exact asciiDigits_append h (asciiDigits_delocalize key)

theorem keeps_asciiDigits {action : Session.Action}
    (h : ∀ entry, action = .loadEntry entry → AsciiDigits entry.result) :
    Keeps AsciiDigits action := by
  cases action with
  | input text => exact fun buffer => asciiDigits_apply text
  | deleteLast => exact fun buffer => asciiDigits_dropLast
  | loadEntry entry => exact h entry rfl
  | _ => trivial

theorem asciiDigits_converter {session : Converter.Session} (h : AsciiDigits session.input)
    (action : Converter.Session.Action) : AsciiDigits (session.perform action).input := by
  cases action with
  | setCategory category => exact asciiDigits_empty
  | setUnits source target =>
      rw [Converter.Session.perform]
      rcases setUnits_cases session source target with ⟨-, -, heq⟩ | ⟨unit, -, heq⟩ <;> rw [heq]
      · exact h
      · exact h
  | swapUnits => exact h
  | setInput text => exact asciiDigits_delocalize text
  | push text =>
      rw [Converter.Session.perform, Converter.Session.push]
      split
      · exact asciiDigits_append h (asciiDigits_delocalize text)
      · exact h
  | deleteLast => exact asciiDigits_dropLast h
  | clear => exact asciiDigits_empty

/-- An entry that is loaded by itself has been in the history at some time of the run before. -/
def LoadsOwn (start : Keypad) (actions : List Keypad.Action) : Prop :=
  ∀ before entry after, actions = before ++ .calculator (.loadEntry entry) :: after →
    ∃ earlier, earlier <+: before ∧ entry ∈ (start.run earlier).calculator.history.entries

theorem LoadsOwn.of_isPrefix {start : Keypad} {earlier actions : List Keypad.Action}
    (h : LoadsOwn start actions) (hearlier : earlier <+: actions) : LoadsOwn start earlier := by
  obtain ⟨later, rfl⟩ := hearlier
  rintro before entry after rfl
  exact h before entry (after ++ later) (by simp)

theorem toCalculator?_eq_loadEntry {tab : Tab} {action : Keypad.Action} {entry : Entry}
    (h : toCalculator? (tab, action) = some (.loadEntry entry)) :
    action = .calculator (.loadEntry entry) := by
  unfold toCalculator? at h
  split at h <;> simp_all

theorem asciiDigits_converter_run (settings : Settings) (actions : List Keypad.Action) :
    AsciiDigits ((Keypad.start settings).run actions).converter.input := by
  have hstart : AsciiDigits (Keypad.start settings).converter.input := asciiDigits_empty
  rw [run_part perform_converter]
  refine List.foldlRecOn _ Converter.Session.perform
    (motive := fun session => AsciiDigits session.input) hstart ?_
  intro session h action _
  exact asciiDigits_converter h action

/-- An entry that is loaded comes from an earlier keypad of the run, so the induction is on the
length of the run. -/
theorem holds_asciiDigits_run (settings : Settings) {actions : List Keypad.Action}
    (h : LoadsOwn (Keypad.start settings) actions) :
    Holds AsciiDigits ((Keypad.start settings).run actions).calculator := by
  induction hlength : actions.length using Nat.strongRecOn generalizing actions with
  | ind n ih =>
      refine holds_keypad_run ofResults_asciiDigits settings ?_
      intro tab action haction reaching hreach
      refine keeps_asciiDigits ?_
      rintro entry rfl
      obtain rfl := toCalculator?_eq_loadEntry hreach
      obtain ⟨before, after, rfl⟩ := List.append_of_mem haction
      obtain ⟨earlier, hearlier, hentry⟩ := h before entry after rfl
      have hshorter : earlier.length < n := by
        have hle := hearlier.length_le
        simp only [← hlength, List.length_append, List.length_cons]
        omega
      have hholds := ih earlier.length hshorter
        (h.of_isPrefix (hearlier.trans (List.prefix_append before _))) rfl
      exact (hholds.entries entry hentry).2

/-- After any run that loads no entries from elsewhere, neither the expression nor the preview, nor a
result, nor an entry of the history, nor the input of the converter holds a digit of a script other
than ASCII, whatever the digits of the keys and texts that came in. -/
theorem buffers_ascii_digits (settings : Settings) (actions : List Keypad.Action)
    (h : LoadsOwn (Keypad.start settings) actions) :
    let keypad := (Keypad.start settings).run actions
    let session := keypad.calculator
    AsciiDigits session.expression ∧ AsciiDigits session.preview ∧
      (session.mode ≠ .showingError → AsciiDigits session.result) ∧
      (∀ entry ∈ session.history.entries,
        AsciiDigits entry.expression ∧ AsciiDigits entry.result) ∧
      AsciiDigits keypad.converter.input := by
  intro keypad session
  have hholds : Holds AsciiDigits session := holds_asciiDigits_run settings h
  exact ⟨hholds.expression, hholds.preview, hholds.result, hholds.entries,
    asciiDigits_converter_run settings actions⟩

/-- One and two in Bengali and Hindi digits, their sum loaded from the history, and a number with
digits of two scripts for the converter. -/
def mixedDigits : List Keypad.Action :=
  [.press "১" 0, .press "+" 1, .press "२" 2, .press "=" 3,
    .calculator (.loadEntry ⟨"1+2", "3", 3⟩), .setTab .converter, .converter (.setInput "୩.५௫")]

theorem loadsOwn_mixedDigits : LoadsOwn (Keypad.start {}) mixedDigits := by
  intro before entry after heq
  have hload : mixedDigits[before.length]? = some (.calculator (.loadEntry entry)) := by
    rw [heq]
    simp
  have hbefore : before = mixedDigits.take before.length := by
    rw [heq]
    simp
  obtain ⟨hlength, hentry⟩ : before.length = 4 ∧ entry = ⟨"1+2", "3", 3⟩ := by
    generalize before.length = index at hload
    match index, hload with
    | 0, hload | 1, hload | 2, hload | 3, hload | 5, hload | 6, hload => cases hload
    | 4, rfl => exact ⟨rfl, rfl⟩
    | index + 7, hload => cases hload
  refine ⟨before, List.prefix_rfl, ?_⟩
  rw [hbefore, hlength, hentry]
  decide +kernel

theorem buffers_ascii_digits_mixed :
    LoadsOwn (Keypad.start {}) mixedDigits ∧
      ((Keypad.start {}).run mixedDigits).calculator.expression = "3" ∧
      ((Keypad.start {}).run mixedDigits).converter.input = "3.55" ∧
      AsciiDigits ((Keypad.start {}).run mixedDigits).converter.input :=
  ⟨loadsOwn_mixedDigits, by decide +kernel, by decide +kernel,
    (buffers_ascii_digits {} mixedDigits loadsOwn_mixedDigits).2.2.2.2⟩

end PocketCalculator.Proofs.AsciiBuffers
