import PocketCalculator.Proofs.DerivationParsing
import PocketCalculator.Proofs.KeySplitting
import PocketCalculator.Proofs.LexicalReading
import PocketCalculator.Proofs.TokenRewriting

namespace PocketCalculator.Proofs.TypedExpression

open PocketCalculator.Calculation
open PocketCalculator.Decimal (Numeral)
open PocketCalculator.Keypad (splitKeys)
open PocketCalculator.Locale
open PocketCalculator.Proofs.ExpressionGrammar
open PocketCalculator.Proofs.KeySplitting
open PocketCalculator.Proofs.LexicalGrammar
open PocketCalculator.Proofs.LexicalReading
open PocketCalculator.Proofs.TokenRewriting

/-- Functions are followed by a parenthesis, which their keys open, and plus signs are not followed
by a division, with which they could be taken for the sign key. -/
def KeysApart : List Token → Prop
  | [] => True
  | .function _ :: rest => rest.head? = some .openParen ∧ KeysApart rest
  | .plus :: rest => (∀ spelling, rest.head? ≠ some (.divide spelling)) ∧ KeysApart rest
  | _ :: rest => KeysApart rest

theorem KeysApart.tail {token : Token} {rest : List Token} (h : KeysApart (token :: rest)) :
    KeysApart rest := by
  cases token with
  | function f => exact h.2
  | plus => exact h.2
  | _ => exact h

/-- The spellings of operators once they have been typed. -/
def typed : Rewriting :=
  ⟨id, fun _ => .sign, fun _ => .sign, fun _ => .caret, none⟩

variable {scientific : Bool}

theorem eq_of_map_delocalizeChar {raw text : List Char} (h : raw.map delocalizeChar = text)
    (hdigit : ∀ c ∈ text, c.isDigit = false) : raw = text := by
  induction raw generalizing text with
  | nil => exact h
  | cons c raw ih =>
      subst h
      have hraw := ih rfl fun d hd => hdigit d (List.mem_cons_of_mem _ hd)
      rcases delocalizeChar_eq_or c with hc | hc
      · rw [List.map_cons, hc, ← hraw]
      · rw [hdigit (delocalizeChar c) List.mem_cons_self] at hc
        cases hc

theorem blank_notMem_of_splits {text : List Char} {pieces : List Piece}
    (h : Splits scientific text pieces) (htext : ∀ c ∈ text, Text.isBlank c = false) (c : Char) :
    .blank c ∉ pieces := by
  intro hmem
  have hc : c ∈ text := by
    rw [← h.text_eq, List.mem_flatMap]
    exact ⟨.blank c, hmem, List.mem_singleton_self c⟩
  have hblank : Text.isBlank c := h.valid _ hmem
  rw [htext c hc] at hblank
  cases hblank

theorem compile_eq_ok_iff {engine : Engine} {text : String} {tree : Tree} :
    engine.compile text = .ok tree ↔
      ∃ tokens, tokenize engine.scientific text = .ok tokens ∧ parse tokens = .ok tree := by
  unfold Engine.compile
  cases htokens : tokenize engine.scientific text with
  | error fault => simp
  | ok tokens =>
      cases hparse : parse tokens <;> simp [Except.mapError, hparse]

end PocketCalculator.Proofs.TypedExpression
