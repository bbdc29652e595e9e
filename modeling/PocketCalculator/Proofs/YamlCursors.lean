import PocketCalculator.Proofs.Characters
import PocketCalculator.Proofs.PlainDocuments
import PocketCalculator.Settings.Yaml.Cursor

namespace PocketCalculator.Proofs.YamlCursors

open PocketCalculator.Settings.Yaml
open PocketCalculator.Proofs.Characters
open PocketCalculator.Proofs.PlainDocuments

theorem isGap_of_isKeyLetter {c : Char} (h : isKeyLetter c) : isGap c = false := by
  have hne (d : Char) (hd : isKeyLetter d = false) : c ≠ d := ne_of_class h hd
  simp [isGap, Text.isSpaceOrTab, isBreak, hne ' ' rfl, hne '\t' rfl, hne '\n' rfl, hne '\u2028' rfl,
    hne '\u2029' rfl]

theorem isBreak_of_isGap {c : Char} (h : isGap c = false) : isBreak c = false :=
  (Bool.or_eq_false_iff.mp h).2

theorem isSpaceOrTab_of_isGap {c : Char} (h : isGap c = false) : Text.isSpaceOrTab c = false :=
  (Bool.or_eq_false_iff.mp h).1

/-- The text after a line: nothing, or a key that is not indented past a column. -/
inductive Follows (column : Nat) : List Char → Prop where
  | nothing : Follows column []
  | key {indent : Nat} {c : Char} (rest : List Char) : indent ≤ column → isKeyLetter c →
      Follows column (List.replicate indent ' ' ++ c :: rest)

theorem Follows.mono {column column' : Nat} {rest : List Char} (h : Follows column rest)
    (hcolumn : column ≤ column') : Follows column' rest := by
  cases h with
  | nothing => exact .nothing
  | key rest hindent hc => exact .key rest (Nat.le_trans hindent hcolumn) hc

/-- The place of the content of the next lines. -/
def lineStart (rest : List Char) : Cursor := (Cursor.mk 0 true rest).toContent false false

theorem skipGap_spaces (flow tabs : Bool) (column spaces : Nat) (fresh : Bool) (rest : List Char) :
    Cursor.skipGap flow tabs false column fresh (List.replicate spaces ' ' ++ rest) =
      Cursor.skipGap flow tabs false (column + spaces) fresh rest := by
  induction spaces generalizing column with
  | zero => rfl
  | succ spaces ih =>
    have hbreak : isBreak ' ' = false := rfl
    rw [List.replicate_succ, List.cons_append, Cursor.skipGap]
    simp only [hbreak, Bool.false_eq_true, if_false, true_or, if_true]
    rw [ih, Nat.add_assoc, Nat.add_comm 1]

theorem skipGap_content (flow tabs : Bool) (column : Nat) (fresh : Bool) {c : Char}
    (rest : List Char) (hgap : isGap c = false) (hcomment : c ≠ '#') :
    Cursor.skipGap flow tabs false column fresh (c :: rest) = ⟨column, fresh, c :: rest⟩ := by
  have hblank := isSpaceOrTab_of_isGap hgap
  simp only [Text.isSpaceOrTab, Bool.or_eq_false_iff, beq_eq_false_iff_ne] at hblank
  simp [Cursor.skipGap, isBreak_of_isGap hgap, hblank, hcomment]

theorem lineStart_key {indent : Nat} {c : Char} (rest : List Char) (h : isKeyLetter c) :
    lineStart (List.replicate indent ' ' ++ c :: rest) = ⟨indent, true, c :: rest⟩ := by
  rw [lineStart, Cursor.toContent, skipGap_spaces, Nat.zero_add]
  exact skipGap_content _ _ _ _ _ (isGap_of_isKeyLetter h) (ne_of_class h rfl)

theorem toContent_break (cursor : Cursor) (tabs : Bool) (rest : List Char)
    (h : cursor.rest = '\n' :: rest) : cursor.toContent false tabs = lineStart rest := by
  have hbreak : isBreak '\n' := rfl
  rw [Cursor.toContent, h, Cursor.skipGap, if_pos hbreak]
  rfl

theorem toContent_lineStart {column : Nat} {rest : List Char} (h : Follows column rest)
    (tabs : Bool) : (lineStart rest).toContent false tabs = lineStart rest := by
  cases h with
  | nothing => rfl
  | key rest _ hc =>
    rw [lineStart_key rest hc]
    exact skipGap_content _ _ _ _ _ (isGap_of_isKeyLetter hc) (ne_of_class hc rfl)

end PocketCalculator.Proofs.YamlCursors
