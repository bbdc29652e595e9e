import PocketCalculator.Proofs.TokenRewriting

namespace PocketCalculator.Proofs.PercentDivision

open PocketCalculator.Calculation
open PocketCalculator.Proofs.TokenRewriting

/-- The tokens with every percent sign written as a division by a hundred. -/
def writeOut (spelling : Spelling) : List Token → List Token
  | [] => []
  | .percent :: rest => .divide spelling :: .number 100 :: writeOut spelling rest
  | token :: rest => token :: writeOut spelling rest

/-- The tree with every percentage read as a quotient by a hundred. -/
def writtenOut : Tree → Tree
  | .number value => .number value
  | .sign op operand => .sign op (writtenOut operand)
  | .binary op left right => .binary op (writtenOut left) (writtenOut right)
  | .percent operand => .binary .divide (writtenOut operand) (.number 100)
  | .call f argument => .call f (writtenOut argument)

/-- The rewriting that leaves everything but percent signs as it is. -/
def division (spelling : Spelling) : Rewriting :=
  ⟨id, id, id, id, some spelling⟩

theorem tokens_division (spelling : Spelling) (tokens : List Token) :
    (division spelling).tokens tokens = writeOut spelling tokens := by
  induction tokens with
  | nil => rfl
  | cons token rest ih =>
      cases token <;> simpa [writeOut, Rewriting.tokens, Rewriting.token, division] using ih

theorem tree_division (spelling : Spelling) (tree : Tree) :
    (division spelling).tree tree = writtenOut tree := by
  induction tree with
  | number value => rfl
  | sign op operand ih => rw [Rewriting.tree, writtenOut, ih]
  | binary op left right ihleft ihright => rw [Rewriting.tree, writtenOut, ihleft, ihright]
  | percent operand ih =>
      rw [Rewriting.tree, writtenOut, ih]
      rfl
  | call f argument ih => rw [Rewriting.tree, writtenOut, ih]

@[simp] theorem writtenOut_writtenOut (tree : Tree) :
    writtenOut (writtenOut tree) = writtenOut tree := by
  induction tree <;> simp_all [writtenOut]

theorem eval_writtenOut (angle : AngleUnit) (tree : Tree) :
    (writtenOut tree).eval angle = tree.eval angle := by
  induction tree with
  | number value => rfl
  | sign op operand ih => rw [writtenOut, Tree.eval, Tree.eval, ih]
  | binary op left right ihleft ihright => rw [writtenOut, Tree.eval, Tree.eval, ihleft, ihright]
  | percent operand ih =>
      rw [writtenOut, Tree.eval, Tree.eval, ih]
      rfl
  | call f argument ih => rw [writtenOut, Tree.eval, Tree.eval, ih]

theorem parse_writeOut_eq_ok_iff {spelling : Spelling} {tokens : List Token} {tree' : Tree}
    (h : (writeOut spelling tokens).length ≤ maxTokens) :
    parse (writeOut spelling tokens) = .ok tree' ↔
      ∃ tree, parse tokens = .ok tree ∧ writtenOut tree = tree' := by
  rw [← tokens_division] at h ⊢
  simp only [parse_tokens_eq_ok_iff h, tree_division]

/-- Writing percent signs as divisions neither makes nor breaks an expression, and its tree stays
the same once percentages are read as quotients. -/
theorem parse_writeOut (spelling : Spelling) (tokens : List Token)
    (h : (writeOut spelling tokens).length ≤ maxTokens) :
    ((∃ tree, parse tokens = .ok tree) ↔ ∃ tree', parse (writeOut spelling tokens) = .ok tree') ∧
      ∀ tree tree', parse tokens = .ok tree → parse (writeOut spelling tokens) = .ok tree' →
        writtenOut tree = writtenOut tree' ∧ writtenOut tree' = tree' ∧
          ∀ angle, tree.eval angle = tree'.eval angle := by
  refine ⟨?_, ?_⟩
  · simp only [parse_writeOut_eq_ok_iff h]
    constructor
    · rintro ⟨tree, hread⟩
      exact ⟨writtenOut tree, tree, hread, rfl⟩
    · rintro ⟨-, tree, hread, -⟩
      exact ⟨tree, hread⟩
  · intro tree tree' hread hread'
    obtain ⟨same, hsame, rfl⟩ := (parse_writeOut_eq_ok_iff h).mp hread'
    obtain rfl : same = tree := Except.ok.inj (hsame.symm.trans hread)
    refine ⟨(writtenOut_writtenOut same).symm, writtenOut_writtenOut same, ?_⟩
    intro angle
    exact (eval_writtenOut angle same).symm

theorem parse_writeOut_raised :
    (∃ tree, parse [.number 10, .percent, .power .caret, .number 2] = .ok tree) ↔
      ∃ tree', parse [.number 10, .divide .ascii, .number 100, .power .caret, .number 2] =
        .ok tree' :=
  (parse_writeOut .ascii [.number 10, .percent, .power .caret, .number 2] (by decide)).1

end PocketCalculator.Proofs.PercentDivision
