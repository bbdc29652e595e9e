import Mathlib.Data.List.Forall2
import Mathlib.Data.List.Nodup
import PocketCalculator.Keypad.Basic
import PocketCalculator.Keypad.Keys

namespace PocketCalculator.Proofs.KeySplitting

open PocketCalculator.Calculator
open PocketCalculator.Keypad
open PocketCalculator.Locale

/-- The longer of two spellings, the later one if they are equally long. -/
def longer : Option (List Char × String) → List Char × String → Option (List Char × String)
  | some best, entry => if best.1.length ≤ entry.1.length then some entry else some best
  | none, entry => some entry

theorem exists_foldl_longer (entries : List (List Char × String)) (best : List Char × String) :
    ∃ entry ∈ best :: entries, entries.foldl longer (some best) = some entry ∧
      ∀ other ∈ best :: entries, other.1.length ≤ entry.1.length := by
  induction entries generalizing best with
  | nil => exact ⟨best, List.mem_cons_self, rfl, by simp⟩
  | cons next entries ih =>
      by_cases hlength : best.1.length ≤ next.1.length
      · obtain ⟨entry, hmem, hfold, hall⟩ := ih next
        refine ⟨entry, List.mem_cons_of_mem _ hmem, ?_, ?_⟩
        · rw [List.foldl_cons, longer, if_pos hlength, hfold]
        · intro other hother
          rcases List.mem_cons.mp hother with rfl | hother
          · exact Nat.le_trans hlength (hall next List.mem_cons_self)
          · exact hall other hother
      · obtain ⟨entry, hmem, hfold, hall⟩ := ih best
        refine ⟨entry, ?_, ?_, ?_⟩
        · rcases List.mem_cons.mp hmem with rfl | hmem
          · exact List.mem_cons_self
          · exact List.mem_cons_of_mem _ (List.mem_cons_of_mem _ hmem)
        · rw [List.foldl_cons, longer, if_neg hlength, hfold]
        · have hbest := hall best List.mem_cons_self
          intro other hother
          rcases List.mem_cons.mp hother with rfl | hother
          · exact hbest
          rcases List.mem_cons.mp hother with rfl | hother
          · omega
          · exact hall other (List.mem_cons_of_mem _ hother)

theorem longestSpelling?_eq_foldl (cs : List Char) :
    longestSpelling? cs =
      (spellings.filter fun entry => entry.1.isPrefixOf cs).foldl longer none := by
  unfold longestSpelling?
  congr 1
  funext best entry
  cases best with
  | none => rfl
  | some best =>
      obtain ⟨longest, other⟩ := best
      rfl

theorem mem_filter_spellings {cs : List Char} {entry : List Char × String} :
    entry ∈ spellings.filter (fun entry => entry.1.isPrefixOf cs) ↔
      entry ∈ spellings ∧ entry.1 <+: cs := by
  simp

/-- Either no spelling is found and there is none, or one is found and none is longer. -/
theorem longestSpelling?_spec (cs : List Char) :
    (longestSpelling? cs = none ∧ ∀ other ∈ spellings, ¬ other.1 <+: cs) ∨
      ∃ entry, longestSpelling? cs = some entry ∧ entry ∈ spellings ∧ entry.1 <+: cs ∧
        ∀ other ∈ spellings, other.1 <+: cs → other.1.length ≤ entry.1.length := by
  rw [longestSpelling?_eq_foldl]
  have hmem : ∀ entry, entry ∈ spellings.filter (fun entry => entry.1.isPrefixOf cs) ↔
      entry ∈ spellings ∧ entry.1 <+: cs := fun entry => mem_filter_spellings
  generalize spellings.filter (fun entry => entry.1.isPrefixOf cs) = found at hmem ⊢
  cases found with
  | nil =>
      refine Or.inl ⟨rfl, ?_⟩
      intro other hother hstart
      cases (hmem other).mpr ⟨hother, hstart⟩
  | cons first found =>
      obtain ⟨entry, hentry, hfold, hall⟩ := exists_foldl_longer found first
      obtain ⟨hspelling, hstart⟩ := (hmem entry).mp hentry
      refine Or.inr ⟨entry, hfold, hspelling, hstart, ?_⟩
      intro other hother hstart
      exact hall other ((hmem other).mpr ⟨hother, hstart⟩)

theorem eq_of_mem_spellings {entry entry' : List Char × String} (h : entry ∈ spellings)
    (h' : entry' ∈ spellings) (heq : entry.1 = entry'.1) : entry = entry' := by
  have hnodup : (spellings.map Prod.fst).Nodup := by
    decide
  exact List.inj_on_of_nodup_map hnodup h h' heq

theorem longestSpelling?_eq_some {cs : List Char} {entry : List Char × String}
    (hmem : entry ∈ spellings) (hstart : entry.1 <+: cs)
    (hmax : ∀ other ∈ spellings, other.1 <+: cs → other.1.length ≤ entry.1.length) :
    longestSpelling? cs = some entry := by
  rcases longestSpelling?_spec cs with ⟨-, hnone⟩ | ⟨found, hfound, hspelling, hfirst, hall⟩
  · exact absurd hstart (hnone entry hmem)
  · have hlength : found.1.length = entry.1.length :=
      Nat.le_antisymm (hmax found hspelling hfirst) (hall entry hmem hstart)
    have heq : found.1 = entry.1 :=
      (List.prefix_of_prefix_length_le hfirst hstart (Nat.le_of_eq hlength)).eq_of_length hlength
    rw [hfound, eq_of_mem_spellings hspelling hmem heq]

theorem splitKeys_of_some {spelling rest : List Char} {key : String} (hne : spelling ≠ [])
    (h : longestSpelling? (spelling ++ rest) = some (spelling, key)) :
    splitKeys (spelling ++ rest) = key :: splitKeys rest := by
  obtain ⟨c, tail, rfl⟩ := List.exists_cons_of_ne_nil hne
  rw [List.cons_append] at h ⊢
  rw [splitKeys, h]
  simp

theorem splitKeys_of_none {c : Char} {rest : List Char}
    (h : longestSpelling? (c :: rest) = none) :
    splitKeys (c :: rest) = String.singleton c :: splitKeys rest := by
  rw [splitKeys, h]

/-- Whatever the buffer of the calculator, the key appends the text to it. -/
structure Appends (key : String) (text : List Char) : Prop where
  action : ∀ now, calculatorAction key now = .input key
  apply : ∀ buffer, (Key.ofText key).apply buffer = buffer ++ String.ofList text

theorem calculatorAction_of_ne {key : String} (h : key ∉ ["AC", "DEL", "="]) (now : Nat) :
    calculatorAction key now = .input key := by
  unfold calculatorAction
  split <;> simp_all

theorem ofText_of_ne {key : String} (h : key ∉ ["x²", "xʸ", "1/x", "+/-", "√", "Mod"]) :
    Key.ofText key = .literal (delocalize key) := by
  unfold Key.ofText
  split <;> simp_all

theorem singleton_eq_iff {c : Char} {text : String} :
    String.singleton c = text ↔ [c] = text.toList := by
  rw [← String.toList_inj, String.toList_singleton]

theorem delocalizeChar_eq_or (c : Char) :
    delocalizeChar c = c ∨ (delocalizeChar c).isDigit := by
  unfold delocalizeChar
  split
  · rename_i value hvalue
    obtain ⟨language, -, hdigit⟩ := List.exists_of_findSome?_eq_some hvalue
    simp only [Option.ite_none_right_eq_some, Bool.and_eq_true, decide_eq_true_eq,
      Option.some.injEq] at hdigit
    right
    rw [Nat.isDigit_digitChar, decide_eq_true_eq]
    omega
  · exact Or.inl rfl

theorem appends_singleton {c : Char} (hequals : c ≠ '=') (hroot : c ≠ '√') :
    Appends (String.singleton c) [delocalizeChar c] := by
  have haction : String.singleton c ∉ ["AC", "DEL", "="] := by
    simp [singleton_eq_iff, hequals]
  have hkey : String.singleton c ∉ ["x²", "xʸ", "1/x", "+/-", "√", "Mod"] := by
    simp [singleton_eq_iff, hroot]
  refine ⟨calculatorAction_of_ne haction, ?_⟩
  intro buffer
  rw [ofText_of_ne hkey, Key.apply, delocalize, String.toList_singleton]
  rfl

theorem exists_tail_of_mem_spellings {entry : List Char × String} {c : Char} {rest : List Char}
    (hmem : entry ∈ spellings) (hstart : entry.1 <+: c :: rest) :
    ∃ tail, entry.1 = c :: tail ∧ tail <+: rest := by
  have hall : ∀ entry ∈ spellings, entry.1 ≠ [] := by
    decide
  rcases List.prefix_cons_iff.mp hstart with hnil | htail
  · exact absurd hnil (hall entry hmem)
  · exact htail

theorem head?_of_isPrefix {tail rest : List Char} {c : Char} (hstart : tail <+: rest)
    (hhead : tail.head? = some c) : rest.head? = some c := by
  obtain ⟨later, rfl⟩ := hstart
  rw [List.head?_append, hhead]
  rfl

/-- A keypad whose calculator is in front and being typed into. -/
structure Ready (engine : Calculation.Engine) (buffer : List Char) (keypad : Keypad) : Prop where
  tab : keypad.tab = .calculator
  mode : keypad.calculator.mode = .idle
  engine_eq : keypad.calculator.engine = engine
  expression : keypad.calculator.expression = String.ofList buffer

theorem Ready.press {engine : Calculation.Engine} {buffer text : List Char} {keypad : Keypad}
    {key : String} (h : Ready engine buffer keypad) (hkey : Appends key text) (now : Nat) :
    Ready engine (buffer ++ text) (keypad.press key now) := by
  obtain ⟨htab, hmode, hengine, hexpression⟩ := h
  simp only [Keypad.press, htab, hkey.action, Session.perform, Session.input, Session.resume, hmode,
    Session.refreshPreview, hkey.apply, hexpression, if_true]
  exact ⟨rfl, rfl, hengine, by simp⟩

/-- Presses keys one after the other. The times go into the history. -/
def pressAll (keypad : Keypad) (presses : List (String × Nat)) : Keypad :=
  presses.foldl (fun keypad (key, now) => keypad.press key now) keypad

theorem Ready.pressAll {engine : Calculation.Engine} {buffer : List Char} {keypad : Keypad}
    {presses : List (String × Nat)} {texts : List (List Char)} (h : Ready engine buffer keypad)
    (hkeys : List.Forall₂ Appends (presses.map Prod.fst) texts) :
    Ready engine (buffer ++ texts.flatten) (pressAll keypad presses) := by
  induction presses generalizing keypad buffer texts with
  | nil =>
      cases hkeys
      rw [List.flatten_nil, List.append_nil]
      exact h
  | cons press presses ih =>
      cases hkeys with
      | cons hkey hkeys =>
          rw [List.flatten_cons, ← List.append_assoc]
          exact ih (h.press hkey press.2) hkeys

end PocketCalculator.Proofs.KeySplitting
