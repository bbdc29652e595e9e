import PocketCalculator.Proofs.YamlBlocks
import PocketCalculator.Settings.Yaml

namespace PocketCalculator.Proofs.YamlCharacters

open PocketCalculator.Settings
open PocketCalculator.Settings.Yaml
open PocketCalculator.Proofs.Characters
open PocketCalculator.Proofs.PlainDocuments
open PocketCalculator.Proofs.WrittenNumbers
open PocketCalculator.Proofs.YamlBlocks
open PocketCalculator.Proofs.YamlQuotes

theorem isAllowed_of_isPrintable {c : Char} (h : isPrintable c) : isAllowed c := by
  simp only [isPrintable, isAllowed, Bool.or_eq_true, Bool.and_eq_true, beq_iff_eq,
    decide_eq_true_eq] at h ⊢
  omega

theorem plainLines_of_isPrintable {cs : List Char} (h : ∀ c ∈ cs, isPrintable c) :
    plainLines cs = cs := by
  fun_induction plainLines cs with
  | case1 rest _ => exact absurd (h '\r' (by simp)) (by decide)
  | case2 c rest _ ih =>
    obtain ⟨hc, hrest⟩ := List.forall_mem_cons.mp h
    have hbreak : ¬(c = '\r' ∨ c = '\x85') := by
      rintro (rfl | rfl) <;> exact absurd hc (by decide)
    rw [if_neg hbreak, ih hrest]
  | case3 => rfl

theorem isPrintable_of_isAlphanum {c : Char} (h : c.isAlphanum) : isPrintable c := by
  rw [isAlphanum_iff, isAlpha_iff, isDigit_iff] at h
  simp only [isPrintable, Bool.or_eq_true, Bool.and_eq_true, beq_iff_eq, decide_eq_true_eq]
  omega

theorem isPrintable_of_isKeyLetter {c : Char} (h : isKeyLetter c) : isPrintable c := by
  simp only [isKeyLetter, Bool.or_eq_true, beq_iff_eq] at h
  rcases h with h | rfl
  · exact isPrintable_of_isAlphanum (isAlphanum_of_isLower h)
  · rfl

theorem isPrintable_encodeChar (c : Char) : ∀ d ∈ encodeChar c, isPrintable d := by
  have hcode (mark : Char) (width : Nat) (hmark : isPrintable mark) :
      ∀ d ∈ '\\' :: mark :: Text.hexDigits width c.toNat, isPrintable d := by
    intro d hd
    rcases List.mem_cons.mp hd with rfl | hd
    · rfl
    · rcases List.mem_cons.mp hd with rfl | hd
      · exact hmark
      · exact isPrintable_of_isAlphanum (isAlphanum_hexDigits d hd)
  unfold encodeChar
  split
  case h_15 =>
    split
    case isTrue hc => simpa using hc
    case isFalse =>
      split
      · exact hcode 'x' 2 rfl
      · split
        · exact hcode 'u' 4 rfl
        · exact hcode 'U' 8 rfl
  all_goals exact List.all_eq_true.mp rfl

theorem mem_indented {indent : Nat} {fresh : Bool} {cs : List Char} {d : Char}
    (h : d ∈ indented indent fresh cs) : d = ' ' ∨ d ∈ cs := by
  induction cs generalizing fresh with
  | nil => simp [indented] at h
  | cons c cs ih =>
    rw [indented] at h
    split at h
    · rcases List.mem_cons.mp h with rfl | h
      · exact .inr (by simp)
      · exact (ih h).imp_right (List.mem_cons_of_mem c)
    · rcases List.mem_append.mp h with h | h
      · split at h
        · exact .inl (List.eq_of_mem_replicate h)
        · cases h
      · rcases List.mem_cons.mp h with rfl | h
        · exact .inr (by simp)
        · exact (ih h).imp_right (List.mem_cons_of_mem c)

theorem mem_doubleQuotes {cs : List Char} {d : Char} (h : d ∈ doubleQuotes cs) : d ∈ cs := by
  obtain ⟨c, hc, hd⟩ := List.mem_flatMap.mp h
  split at hd
  · rename_i hquote
    simp only [List.mem_cons, List.not_mem_nil, or_false, or_self] at hd
    rwa [hd, ← hquote]
  · rwa [List.mem_singleton.mp hd]

theorem isPrintable_written (indent : Nat) (text : String) :
    ∀ c ∈ written indent text, isPrintable c := by
  have hindented {fresh : Bool} {cs : List Char} (hcs : ∀ c ∈ cs, isPrintable c) :
      ∀ c ∈ indented indent fresh cs, isPrintable c := fun c hc =>
    (mem_indented hc).elim (fun h => h ▸ rfl) (hcs c)
  intro c hc
  cases hstyle : styleOf text.toList with
  | plain =>
    have hsuits := suits_styleOf text.toList
    rw [hstyle] at hsuits
    have hprintable := isPrintable_of_special hsuits.2.1
    simp only [written, hstyle, List.mem_append, List.mem_singleton] at hc
    rcases hc with hc | rfl
    · exact hprintable c hc
    · rfl
  | single =>
    have hchars := (of_styleOf_single hstyle).1
    have hdoubled : ∀ c ∈ doubleQuotes text.toList, isPrintable c := fun c hc =>
      (hchars c (mem_doubleQuotes hc)).1
    simp only [written, hstyle, List.mem_append, List.mem_cons, List.not_mem_nil, or_false] at hc
    rcases hc with rfl | (hc | hc) | rfl | rfl
    · rfl
    · exact hindented hdoubled c hc
    · split at hc
      · exact List.eq_of_mem_replicate hc ▸ rfl
      · cases hc
    · rfl
    · rfl
  | double =>
    simp only [written, hstyle, List.mem_append, List.mem_cons, List.not_mem_nil, or_false] at hc
    rcases hc with rfl | hc | rfl | rfl
    · rfl
    · obtain ⟨d, -, hd⟩ := List.mem_flatMap.mp hc
      exact isPrintable_encodeChar d c hd
    · rfl
    · rfl
  | block =>
    have hchars := (of_styleOf_block hstyle).printable
    simp only [written, hstyle, List.mem_append, List.mem_cons] at hc
    rcases hc with rfl | (hc | rfl | hc) | hc
    · rfl
    · have hsigns : ∀ c, isBlockSign c → isPrintable c := by
        intro c hc
        simp only [isBlockSign, Bool.or_eq_true, beq_iff_eq] at hc
        rcases hc with (rfl | rfl) | hc
        · rfl
        · rfl
        · exact isPrintable_of_isAlphanum (isAlphanum_of_isDigit hc)
      exact hsigns c (isBlockSign_of_mem_blockSigns _ c hc)
    · rfl
    · exact hindented hchars c hc
    · split at hc
      · cases hc
      · exact List.mem_singleton.mp hc ▸ rfl

theorem isPrintable_scalarLine (indent : Nat) {s : Scalar} (hs : IsPlainScalar s) :
    ∀ c ∈ scalarLine indent s, isPrintable c := by
  have hwords : ∀ word ∈ ["true\n", "false\n", "null\n"], word.toList.all isPrintable := by decide
  have hword (word : String) (hmem : word ∈ ["true\n", "false\n", "null\n"]) :
      ∀ c ∈ word.toList, isPrintable c := List.all_eq_true.mp (hwords word hmem)
  cases s with
  | text t => exact isPrintable_written indent t
  | truth b => cases b <;> exact hword _ (by simp)
  | integer n =>
    obtain ⟨n, rfl, -⟩ := hs n rfl
    intro c hc
    rw [scalarLine, toList_repr, List.mem_append, List.mem_singleton] at hc
    rcases hc with hc | rfl
    · exact isPrintable_of_isAlphanum (isAlphanum_of_isDigit (isDigit_toDigits n c hc))
    · rfl
  | empty => exact hword _ (by simp)

theorem isPrintable_entryLine (indent : Nat) {entry : String × Scalar} (hkey : IsKey entry.1)
    (hs : IsPlainScalar entry.2) : ∀ c ∈ entryLine indent entry, isPrintable c := by
  intro c hc
  simp only [entryLine, List.mem_append, List.mem_cons] at hc
  rcases hc with (hc | hc) | rfl | rfl | hc
  · exact List.eq_of_mem_replicate hc ▸ rfl
  · exact isPrintable_of_isKeyLetter (hkey.letters c hc)
  · rfl
  · rfl
  · exact isPrintable_scalarLine (indent + 2) hs c hc

theorem isPrintable_write {document : Document} (h : IsPlain document) :
    ∀ c ∈ (write document).toList, isPrintable c := by
  intro c hc
  simp only [write, String.toList_ofList, List.mem_append, List.mem_cons, List.mem_flatMap] at hc
  rcases hc with (⟨entry, hentry, hc⟩ | hc) | rfl | rfl | ⟨entry, hentry, hc⟩
  · exact isPrintable_entryLine 0 (h.keys entry (by simp [hentry]))
      (h.scalars entry (by simp [hentry])) c hc
  · exact isPrintable_of_isKeyLetter (h.name.letters c hc)
  · rfl
  · rfl
  · exact isPrintable_entryLine 2 (h.keys entry (by simp [hentry]))
      (h.scalars entry (by simp [hentry])) c hc

end PocketCalculator.Proofs.YamlCharacters
