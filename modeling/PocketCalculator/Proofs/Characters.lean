import Mathlib.Data.List.TakeWhile

namespace PocketCalculator.Proofs.Characters

section

variable {c : Char}

theorem ne_of_class {d : Char} {p : Char → Bool} (h : p c) (hd : p d = false) : c ≠ d := by
  rintro rfl
  simp [h] at hd

theorem isDigit_iff : c.isDigit ↔ 48 ≤ c.toNat ∧ c.toNat ≤ 57 := by
  simp [Char.isDigit, UInt32.le_iff_toNat_le]

theorem isLower_iff : c.isLower ↔ 97 ≤ c.toNat ∧ c.toNat ≤ 122 := by
  change (decide (c.val ≥ 'a'.val) && decide (c.val ≤ 'z'.val)) = true ↔ _
  simp [UInt32.le_iff_toNat_le]

theorem isAlpha_iff :
    c.isAlpha ↔ 65 ≤ c.toNat ∧ c.toNat ≤ 90 ∨ 97 ≤ c.toNat ∧ c.toNat ≤ 122 := by
  change (decide (c.val ≥ 'A'.val ∧ c.val ≤ 'Z'.val) || c.isLower) = true ↔ _
  simp [isLower_iff, UInt32.le_iff_toNat_le]

theorem isAlphanum_iff : c.isAlphanum ↔ c.isAlpha ∨ c.isDigit := by
  rw [Char.isAlphanum, Bool.or_eq_true]

theorem isAlphanum_of_isDigit (h : c.isDigit) : c.isAlphanum := isAlphanum_iff.mpr (.inr h)

theorem isAlphanum_of_isLower (h : c.isLower) : c.isAlphanum :=
  isAlphanum_iff.mpr (.inl (isAlpha_iff.mpr (.inr (isLower_iff.mp h))))

end

theorem isDigit_toDigits (n : Nat) : ∀ c ∈ Nat.toDigits 10 n, c.isDigit := fun _ =>
  Nat.isDigit_of_mem_toDigits (by decide) (by decide)

theorem takeWhile_append_of_ends {p : Char → Bool} {run rest : List Char}
    (hrun : ∀ c ∈ run, p c) (hrest : ∀ c ∈ rest.head?, p c = false) :
    (run ++ rest).takeWhile p = run ∧ (run ++ rest).dropWhile p = rest := by
  rw [List.takeWhile_append_of_pos hrun, List.dropWhile_append_of_pos hrun]
  cases rest with
  | nil => simp
  | cons c rest => simp [hrest c rfl]

theorem eq_false_of_head?_dropWhile (p : Char → Bool) (cs : List Char) :
    ∀ c ∈ (cs.dropWhile p).head?, p c = false := by
  intro c hc
  have h := List.head?_dropWhile_not p cs
  rw [Option.mem_def.mp hc] at h
  simpa using h

theorem drop_length_takeWhile (p : Char → Bool) (cs : List Char) :
    cs.drop (cs.takeWhile p).length = cs.dropWhile p := by
  induction cs with
  | nil => rfl
  | cons c rest ih => cases h : p c <;> simp [h, ih]

end PocketCalculator.Proofs.Characters
