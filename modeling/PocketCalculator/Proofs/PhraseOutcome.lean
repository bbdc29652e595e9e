import PocketCalculator.Calculation.Phrase

namespace PocketCalculator.Proofs.PhraseOutcome

open PocketCalculator.Calculation

/-- The tree that was read and the tokens after it, if a tree was read. -/
def outcome {tokens : List Token} : Except SyntaxFault (Parsed tokens) → Option (Tree × List Token)
  | .ok p => some (p.tree, p.rest)
  | .error _ => none

@[simp] theorem outcome_ok {tokens : List Token} (p : Parsed tokens) :
    outcome (.ok p) = some (p.tree, p.rest) :=
  rfl

@[simp] theorem outcome_error {tokens : List Token} (fault : SyntaxFault) :
    outcome (.error fault : Except SyntaxFault (Parsed tokens)) = none :=
  rfl

theorem outcome_map_extend {tokens later : List Token} (x : Except SyntaxFault (Parsed later))
    (f : Tree → Tree) (h : later.length ≤ tokens.length) :
    outcome (x.map fun p => (p.extend (f p.tree) h : Parsed tokens)) =
      (outcome x).map fun (tree, rest) => (f tree, rest) := by
  cases x <;> rfl

/-- What has been read ends with a closing parenthesis. -/
def close : Tree × List Token → Option (Tree × List Token)
  | (tree, .closeParen :: rest) => some (tree, rest)
  | _ => none

/-- Takes an exponent up if there is one. -/
def raise (inner : Level) : Tree × List Token → Option (Tree × List Token)
  | (base, .power _ :: rest) =>
    (outcome (inner.operand rest)).map fun (exponent, rest) =>
      (.binary .power base exponent, rest)
  | (base, rest) => some (base, rest)

theorem raise_of_ne_power {inner : Level} {base : Tree} {rest : List Token}
    (h : ∀ spelling later, rest ≠ .power spelling :: later) :
    raise inner (base, rest) = some (base, rest) := by
  cases rest with
  | nil => rfl
  | cons token rest =>
      cases token with
      | power spelling => exact absurd rfl (h spelling rest)
      | _ => rfl

theorem outcome_group (inner : Level) (tokens : List Token) :
    outcome (group inner tokens) =
      if tokens.head? = some .closeParen then none
      else (outcome (inner.sum tokens)).bind close := by
  unfold group
  split
  · simp
  · rename_i h
    have hhead : tokens.head? ≠ some .closeParen := by
      cases tokens with
      | nil => simp
      | cons token rest => simpa using fun heq => h rest (by rw [heq])
    rw [if_neg hhead]
    cases inner.sum tokens with
    | error fault => rfl
    | ok p =>
        obtain ⟨tree, rest, shorter⟩ := p
        cases rest with
        | nil => rfl
        | cons token rest => cases token <;> rfl

theorem outcome_primary_group (inner : Level) (rest : List Token) :
    outcome (primary inner (.openParen :: rest)) = outcome (group inner rest) := by
  simp only [primary]
  cases group inner rest <;> rfl

theorem outcome_primary_call (inner : Level) (f : MathFunction) (rest : List Token) :
    outcome (primary inner (.function f :: .openParen :: rest)) =
      (outcome (group inner rest)).map fun (tree, rest) => (.call f tree, rest) :=
  outcome_map_extend _ (.call f) _

theorem outcome_power (inner : Level) (tokens : List Token) :
    outcome (power inner tokens) = (outcome (primary inner tokens)).bind (raise inner) := by
  unfold power
  cases primary inner tokens with
  | error fault => rfl
  | ok base =>
      obtain ⟨tree, rest, shorter⟩ := base
      cases rest with
      | nil => rfl
      | cons token rest =>
          cases token with
          | power spelling => exact outcome_map_extend _ (.binary .power tree) _
          | _ => rfl

theorem outcome_operand_signed (inner : Level) {token : Token} {op : SignOperator}
    (rest : List Token) (h : signOf? token = some op) :
    outcome (operand inner (token :: rest)) =
      (outcome (inner.operand rest)).map fun (tree, rest) => (.sign op tree, rest) := by
  simp only [operand, h]
  exact outcome_map_extend _ (.sign op) _

theorem operand_unsigned (inner : Level) {token : Token} (rest : List Token)
    (h : signOf? token = none) : operand inner (token :: rest) = power inner (token :: rest) := by
  simp only [operand, h]

/-- What comes next in a product or a sum: it ends, what follows cannot be read, or it goes on with
a new tree to the left of the rest. -/
inductive Step where
  | ends
  | fails
  | onward (tree : Tree) (rest : List Token)

/-- The step that takes up what was read to the right. -/
def Step.after (read : Option (Tree × List Token)) (f : Tree → Tree) : Step :=
  match read with
  | some (right, rest) => .onward (f right) rest
  | none => .fails

/-- What comes next in a product after `left`. -/
def nextFactor (inner : Level) (left : Tree) : List Token → Step
  | .percent :: .power _ :: rest =>
    .after (outcome (inner.operand rest)) fun exponent =>
      .binary .divide left (.binary .power (.number 100) exponent)
  | .percent :: rest => .onward (.percent left) rest
  | token :: rest =>
    match multiplicative? token with
    | some op => .after (outcome (operand inner rest)) (.binary op left)
    | none => .ends
  | [] => .ends

/-- What comes next in a sum after `left`. -/
def nextAddend (inner : Level) (left : Tree) : List Token → Step
  | token :: rest =>
    match additive? token with
    | some op => .after (outcome (product inner rest)) (.binary op left)
    | none => .ends
  | [] => .ends

theorem nextFactor_of_multiplicative {inner : Level} {left : Tree} {token : Token}
    {op : BinaryOperator} {rest : List Token} (h : multiplicative? token = some op) :
    nextFactor inner left (token :: rest) =
      .after (outcome (operand inner rest)) (.binary op left) := by
  cases token <;> simp_all [nextFactor, multiplicative?]

theorem nextFactor_percent {inner : Level} {left : Tree} {rest : List Token}
    (h : ∀ spelling later, rest ≠ .power spelling :: later) :
    nextFactor inner left (.percent :: rest) = .onward (.percent left) rest := by
  cases rest with
  | nil => rfl
  | cons token rest =>
      cases token with
      | power spelling => exact absurd rfl (h spelling rest)
      | _ => rfl

/-- A reading that continues from `p` does what the step says. -/
def Follows {tokens : List Token}
    (tail : Parsed tokens → Except SyntaxFault (Parsed tokens)) (p : Parsed tokens) : Step → Prop
  | .ends => outcome (tail p) = some (p.tree, p.rest)
  | .fails => outcome (tail p) = none
  | .onward tree rest =>
    ∃ q : Parsed tokens, q.tree = tree ∧ q.rest = rest ∧ rest.length < p.rest.length ∧
      outcome (tail p) = outcome (tail q)

theorem follows_after {tokens later : List Token} {p : Parsed tokens}
    {tail : Parsed tokens → Except SyntaxFault (Parsed tokens)}
    {read : Except SyntaxFault (Parsed later)} {f : Tree → Tree}
    (hlater : later.length < p.rest.length)
    (h : outcome (tail p) = outcome (read.bind fun q =>
      tail (q.extend (f q.tree) (by have := p.shorter; omega)))) :
    Follows tail p (.after (outcome read) f) := by
  cases read with
  | error fault => exact h
  | ok q => exact ⟨q.extend (f q.tree) _, rfl, rfl, Nat.lt_trans q.shorter hlater, h⟩

theorem follows_nextFactor (inner : Level) {tokens : List Token} (p : Parsed tokens) :
    Follows (productTail inner) p (nextFactor inner p.tree p.rest) := by
  obtain ⟨left, rest, shorter⟩ := p
  simp only
  unfold nextFactor
  split
  · rename_i spelling rest
    refine follows_after (by simp only [List.length_cons]; omega) ?_
    rw [productTail]
    cases hread : inner.operand rest <;> simp [hread, Except.bind]
  · rename_i rest hpower
    refine ⟨⟨.percent left, rest, by simp only [List.length_cons] at shorter; omega⟩,
      rfl, rfl, by simp, ?_⟩
    rw [productTail]
    cases rest with
    | nil => rfl
    | cons next rest =>
        cases next with
        | power spelling => exact absurd rfl (hpower spelling rest)
        | _ => rfl
  · rename_i token rest hpower hpercent
    cases hop : multiplicative? token with
    | none =>
        simp only [Follows]
        rw [productTail]
        cases token <;> simp_all [multiplicative?]
    | some op =>
        refine follows_after (by simp) ?_
        rw [productTail]
        cases hread : operand inner rest <;> cases token <;>
          simp_all [multiplicative?, Except.bind]
  · simp only [Follows]
    rw [productTail]
    rfl

theorem follows_nextAddend (inner : Level) {tokens : List Token} (p : Parsed tokens) :
    Follows (sumTail inner) p (nextAddend inner p.tree p.rest) := by
  obtain ⟨left, rest, shorter⟩ := p
  cases rest with
  | nil =>
      simp only [nextAddend, Follows]
      rw [sumTail]
      rfl
  | cons token rest =>
      simp only [nextAddend]
      cases hop : additive? token with
      | none =>
          simp only [Follows]
          rw [sumTail]
          simp [hop]
      | some op =>
          refine follows_after (by simp) ?_
          rw [sumTail]
          cases hread : product inner rest <;> simp [hop, hread, Except.bind]

theorem exists_of_follows_after {tokens : List Token} {p : Parsed tokens}
    {tail : Parsed tokens → Except SyntaxFault (Parsed tokens)}
    {read : Option (Tree × List Token)} {f : Tree → Tree} {result : Tree × List Token}
    (hstep : Follows tail p (.after read f)) (h : outcome (tail p) = some result) :
    ∃ right rest, read = some (right, rest) ∧ rest.length < p.rest.length ∧
      ∃ q : Parsed tokens, q.tree = f right ∧ q.rest = rest ∧ outcome (tail q) = some result := by
  cases read with
  | none =>
      rw [show outcome (tail p) = none from hstep] at h
      cases h
  | some next =>
      obtain ⟨right, rest⟩ := next
      obtain ⟨q, htree, hrest, hlength, heq⟩ := hstep
      exact ⟨right, rest, rfl, hlength, q, htree, hrest, heq ▸ h⟩

theorem product_eq_bind (inner : Level) (tokens : List Token) :
    product inner tokens = (operand inner tokens).bind (productTail inner) := by
  unfold product
  cases operand inner tokens <;> rfl

theorem sum_eq_bind (inner : Level) (tokens : List Token) :
    sum inner tokens = (product inner tokens).bind (sumTail inner) := by
  unfold sum
  cases product inner tokens <;> rfl

theorem exists_of_outcome_bind {tokens : List Token} {x : Except SyntaxFault (Parsed tokens)}
    {tail : Parsed tokens → Except SyntaxFault (Parsed tokens)} {result : Tree × List Token}
    (h : outcome (x.bind tail) = some result) :
    ∃ p, outcome x = some (p.tree, p.rest) ∧ outcome (tail p) = some result := by
  cases x with
  | error fault => cases h
  | ok p => exact ⟨p, rfl, h⟩

theorem exists_of_outcome {tokens : List Token} {x : Except SyntaxFault (Parsed tokens)}
    {tree : Tree} {rest : List Token} (h : outcome x = some (tree, rest)) :
    ∃ p, x = .ok p ∧ p.tree = tree ∧ p.rest = rest := by
  cases x with
  | error fault => cases h
  | ok p => exact ⟨p, rfl, by simpa using h⟩

theorem parse_eq_ok_iff_outcome {tokens : List Token} {tree : Tree} :
    parse tokens = .ok tree ↔
      tokens ≠ [] ∧ tokens.length ≤ maxTokens ∧
        outcome (sum (level maxDepth) tokens) = some (tree, []) := by
  rw [show sum (level maxDepth) = (level (maxDepth + 1)).sum from rfl]
  unfold parse
  split
  · simp_all
  · rename_i hempty
    split
    · simp
      omega
    · rename_i hlong
      have hne : tokens ≠ [] := by simpa using hempty
      cases hread : (level (maxDepth + 1)).sum tokens with
      | error fault => simp
      | ok p =>
          obtain ⟨read, rest, shorter⟩ := p
          cases rest with
          | nil => simp [hne, Nat.le_of_not_lt hlong]
          | cons token rest => cases token <;> simp

end PocketCalculator.Proofs.PhraseOutcome
