import PocketCalculator.Proofs.PhraseOutcome

/-!
Expressions written in another way. Operators may change their spelling, and percent signs may be
written as a division by a hundred. Reading goes through the rewritten tokens in step with the
original ones, one division for each percent sign.
-/

namespace PocketCalculator.Proofs.TokenRewriting

open PocketCalculator.Calculation
open PocketCalculator.Proofs.PhraseOutcome

/-- How operators are spelled, and with which sign a percent sign is written as a division. -/
structure Rewriting where
  minus : Spelling → Spelling
  times : Spelling → Spelling
  divide : Spelling → Spelling
  power : PowerSpelling → PowerSpelling
  hundredth? : Option Spelling

namespace Rewriting

variable (σ : Rewriting)

def token : Token → List Token
  | .minus spelling => [.minus (σ.minus spelling)]
  | .times spelling => [.times (σ.times spelling)]
  | .divide spelling => [.divide (σ.divide spelling)]
  | .power spelling => [.power (σ.power spelling)]
  | .percent =>
    match σ.hundredth? with
    | some spelling => [.divide spelling, .number 100]
    | none => [.percent]
  | token => [token]

def tokens (tokens : List Token) : List Token :=
  tokens.flatMap σ.token

/-- What becomes of a percent sign in a tree. -/
def percent (operand : Tree) : Tree :=
  match σ.hundredth? with
  | some _ => .binary .divide operand (.number 100)
  | none => .percent operand

def tree : Tree → Tree
  | .number value => .number value
  | .sign op operand => .sign op (tree operand)
  | .binary op left right => .binary op (tree left) (tree right)
  | .percent operand => σ.percent (tree operand)
  | .call f argument => .call f (tree argument)

/-- What was read, rewritten. -/
def read (result : Option (Tree × List Token)) : Option (Tree × List Token) :=
  result.map fun (tree, rest) => (σ.tree tree, σ.tokens rest)

def step : Step → Step
  | .ends => .ends
  | .fails => .fails
  | .onward tree rest => .onward (σ.tree tree) (σ.tokens rest)

end Rewriting

variable {σ : Rewriting}

theorem tokens_percent_of_none (h : σ.hundredth? = none) (rest : List Token) :
    σ.tokens (.percent :: rest) = .percent :: σ.tokens rest := by
  simp [Rewriting.tokens, Rewriting.token, h]

theorem tokens_percent_of_some {spelling : Spelling} (h : σ.hundredth? = some spelling)
    (rest : List Token) :
    σ.tokens (.percent :: rest) = .divide spelling :: .number 100 :: σ.tokens rest := by
  simp [Rewriting.tokens, Rewriting.token, h]

theorem tokens_percent (σ : Rewriting) (rest : List Token) :
    σ.tokens (.percent :: rest) = .percent :: σ.tokens rest ∨
      ∃ spelling,
        σ.tokens (.percent :: rest) = .divide spelling :: .number 100 :: σ.tokens rest := by
  cases h : σ.hundredth? with
  | none => exact Or.inl (tokens_percent_of_none h rest)
  | some spelling => exact Or.inr ⟨spelling, tokens_percent_of_some h rest⟩

theorem head?_tokens_eq_closeParen (tokens : List Token) :
    (σ.tokens tokens).head? = some .closeParen ↔ tokens.head? = some .closeParen := by
  cases tokens with
  | nil => rfl
  | cons token rest =>
      cases token with
      | percent => rcases tokens_percent σ rest with h | ⟨spelling, h⟩ <;> simp [h]
      | _ => simp [Rewriting.tokens, Rewriting.token]

theorem tokens_ne_power {tokens : List Token}
    (h : ∀ spelling later, tokens ≠ .power spelling :: later) (spelling : PowerSpelling)
    (later : List Token) : σ.tokens tokens ≠ .power spelling :: later := by
  cases tokens with
  | nil => simp [Rewriting.tokens]
  | cons token rest =>
      cases token with
      | power old => exact absurd rfl (h old rest)
      | percent => rcases tokens_percent σ rest with h | ⟨spelling, h⟩ <;> simp [h]
      | _ => simp [Rewriting.tokens, Rewriting.token]

theorem exists_tokens_signOf? (σ : Rewriting) (token : Token) (rest : List Token) :
    ∃ token' later, σ.tokens (token :: rest) = token' :: later ∧
      signOf? token' = signOf? token ∧ (signOf? token ≠ none → later = σ.tokens rest) := by
  cases token with
  | percent =>
      rcases tokens_percent σ rest with h | ⟨spelling, h⟩
      · exact ⟨_, _, h, rfl, fun _ => rfl⟩
      · exact ⟨_, _, h, rfl, fun hsign => absurd rfl hsign⟩
  | _ => exact ⟨_, _, rfl, rfl, fun _ => rfl⟩

theorem close_rewrite (tree : Tree) (rest : List Token) :
    close (σ.tree tree, σ.tokens rest) = σ.read (close (tree, rest)) := by
  cases rest with
  | nil => rfl
  | cons token rest =>
      cases token with
      | percent =>
          rcases tokens_percent σ rest with h | ⟨spelling, h⟩ <;>
            (rw [h]; rfl)
      | _ => rfl

/-- The phrases of a level read rewritten tokens as they read the original ones. -/
structure Respects (σ : Rewriting) (inner : Level) : Prop where
  operand : ∀ tokens,
    outcome (inner.operand (σ.tokens tokens)) = σ.read (outcome (inner.operand tokens))
  sum : ∀ tokens, outcome (inner.sum (σ.tokens tokens)) = σ.read (outcome (inner.sum tokens))

section

variable {inner : Level}

theorem raise_rewrite (hinner : Respects σ inner) (base : Tree) (rest : List Token) :
    raise inner (σ.tree base, σ.tokens rest) = σ.read (raise inner (base, rest)) := by
  cases rest with
  | nil => rfl
  | cons token rest =>
      cases token with
      | percent =>
          change _ = some (σ.tree base, σ.tokens (.percent :: rest))
          rcases tokens_percent σ rest with h | ⟨spelling, h⟩ <;>
            (rw [h]; rfl)
      | power spelling =>
          change (outcome (inner.operand (σ.tokens rest))).map _ = _
          rw [hinner.operand, raise]
          cases outcome (inner.operand rest) <;> rfl
      | _ => rfl

theorem outcome_group_rewrite (hinner : Respects σ inner) (tokens : List Token) :
    outcome (group inner (σ.tokens tokens)) = σ.read (outcome (group inner tokens)) := by
  rw [outcome_group, outcome_group, hinner.sum]
  by_cases hclose : tokens.head? = some .closeParen
  · rw [if_pos hclose, if_pos ((head?_tokens_eq_closeParen tokens).mpr hclose)]
    rfl
  · rw [if_neg hclose, if_neg (mt (head?_tokens_eq_closeParen tokens).mp hclose)]
    cases outcome (inner.sum tokens) with
    | none => rfl
    | some result => exact close_rewrite result.1 result.2

theorem outcome_call_rewrite (hinner : Respects σ inner) (f : MathFunction)
    (tokens : List Token) :
    outcome (primary inner (σ.tokens (.function f :: tokens))) =
      σ.read (outcome (primary inner (.function f :: tokens))) := by
  cases tokens with
  | nil => rfl
  | cons token rest =>
      cases token with
      | openParen =>
          change outcome (primary inner (.function f :: .openParen :: σ.tokens rest)) = _
          rw [outcome_primary_call, outcome_primary_call, outcome_group_rewrite hinner]
          cases outcome (group inner rest) <;> rfl
      | percent =>
          change outcome (primary inner (.function f :: σ.tokens (.percent :: rest))) = _
          rcases tokens_percent σ rest with h | ⟨spelling, h⟩ <;>
            (rw [h]; rfl)
      | _ => rfl

theorem outcome_primary_rewrite (hinner : Respects σ inner) (tokens : List Token) :
    outcome (primary inner (σ.tokens tokens)) = σ.read (outcome (primary inner tokens)) := by
  cases tokens with
  | nil => rfl
  | cons token rest =>
      cases token with
      | openParen =>
          rw [outcome_primary_group, ← outcome_group_rewrite hinner]
          exact outcome_primary_group inner (σ.tokens rest)
      | function f => exact outcome_call_rewrite hinner f rest
      | percent =>
          rcases tokens_percent σ rest with h | ⟨spelling, h⟩ <;>
            (rw [h]; rfl)
      | _ => rfl

theorem outcome_power_rewrite (hinner : Respects σ inner) (tokens : List Token) :
    outcome (power inner (σ.tokens tokens)) = σ.read (outcome (power inner tokens)) := by
  rw [outcome_power, outcome_power, outcome_primary_rewrite hinner]
  cases outcome (primary inner tokens) with
  | none => rfl
  | some result => exact raise_rewrite hinner result.1 result.2

theorem outcome_operand_rewrite (hinner : Respects σ inner) (tokens : List Token) :
    outcome (operand inner (σ.tokens tokens)) = σ.read (outcome (operand inner tokens)) := by
  cases tokens with
  | nil => rfl
  | cons token rest =>
      have hpower := outcome_power_rewrite hinner (token :: rest)
      obtain ⟨token', later, htokens, htoken, hlater⟩ := exists_tokens_signOf? σ token rest
      rw [htokens] at hpower ⊢
      cases hsign : signOf? token with
      | none =>
          rw [operand_unsigned inner later (htoken.trans hsign), operand_unsigned inner rest hsign,
            hpower]
      | some op =>
          rw [outcome_operand_signed inner later (htoken.trans hsign),
            outcome_operand_signed inner rest hsign, hlater (by simp [hsign]), hinner.operand]
          cases outcome (inner.operand rest) <;> rfl

theorem outcome_operand_number (value : Float) (rest : List Token) :
    outcome (operand inner (.number value :: rest)) = raise inner (.number value, rest) := by
  rw [operand_unsigned inner rest rfl, outcome_power]
  rfl

theorem after_rewrite (read : Option (Tree × List Token)) {f f' : Tree → Tree}
    (h : ∀ tree, σ.tree (f tree) = f' (σ.tree tree)) :
    Step.after (σ.read read) f' = σ.step (.after read f) := by
  cases read with
  | none => rfl
  | some result => simp only [Rewriting.read, Option.map_some, Step.after, Rewriting.step, h]

theorem nextFactor_joined_rewrite (hinner : Respects σ inner) {token token' : Token}
    {op : BinaryOperator} (htoken : multiplicative? token = some op)
    (htoken' : multiplicative? token' = some op) (left : Tree) (rest : List Token) :
    nextFactor inner (σ.tree left) (token' :: σ.tokens rest) =
      σ.step (nextFactor inner left (token :: rest)) := by
  rw [nextFactor_of_multiplicative htoken, nextFactor_of_multiplicative htoken',
    outcome_operand_rewrite hinner]
  exact after_rewrite _ fun _ => rfl

theorem nextFactor_percent_rewrite (hinner : Respects σ inner) (left : Tree)
    (rest : List Token) :
    nextFactor inner (σ.tree left) (σ.tokens (.percent :: rest)) =
      σ.step (nextFactor inner left (.percent :: rest)) := by
  by_cases hpower : ∃ spelling later, rest = .power spelling :: later
  · obtain ⟨spelling, later, rfl⟩ := hpower
    cases h : σ.hundredth? with
    | none =>
        rw [tokens_percent_of_none h]
        change Step.after (outcome (inner.operand (σ.tokens later))) _ = _
        rw [hinner.operand]
        exact after_rewrite _ fun _ => rfl
    | some spelling =>
        rw [tokens_percent_of_some h, nextFactor_of_multiplicative rfl, outcome_operand_number]
        change Step.after ((outcome (inner.operand (σ.tokens later))).map _) _ = _
        rw [hinner.operand]
        cases hread : outcome (inner.operand later) <;>
          (simp only [nextFactor, hread]; rfl)
  · have hplain : ∀ spelling later, rest ≠ .power spelling :: later :=
      fun spelling later heq => hpower ⟨spelling, later, heq⟩
    rw [nextFactor_percent hplain]
    cases h : σ.hundredth? with
    | none =>
        rw [tokens_percent_of_none h, nextFactor_percent (tokens_ne_power hplain)]
        simp only [Rewriting.step, Rewriting.tree, Rewriting.percent, h]
    | some spelling =>
        rw [tokens_percent_of_some h, nextFactor_of_multiplicative rfl, outcome_operand_number,
          raise_of_ne_power (tokens_ne_power hplain)]
        simp only [Step.after, Rewriting.step, Rewriting.tree, Rewriting.percent, h]

theorem nextFactor_rewrite (hinner : Respects σ inner) (left : Tree) (tokens : List Token) :
    nextFactor inner (σ.tree left) (σ.tokens tokens) = σ.step (nextFactor inner left tokens) := by
  cases tokens with
  | nil => rfl
  | cons token rest =>
      cases token with
      | times spelling => exact nextFactor_joined_rewrite hinner rfl rfl left rest
      | divide spelling => exact nextFactor_joined_rewrite hinner rfl rfl left rest
      | modulo => exact nextFactor_joined_rewrite hinner rfl rfl left rest
      | percent => exact nextFactor_percent_rewrite hinner left rest
      | _ => rfl

end

section

variable {tail : {tokens : List Token} → Parsed tokens → Except SyntaxFault (Parsed tokens)}
  {next : Tree → List Token → Step}

/-- Two readings that take corresponding steps read corresponding trees. -/
theorem outcome_tail_rewrite
    (hnext : ∀ {tokens : List Token} (p : Parsed tokens), Follows tail p (next p.tree p.rest))
    (hrewrite : ∀ left tokens, next (σ.tree left) (σ.tokens tokens) = σ.step (next left tokens))
    {tokens tokens' : List Token} (p : Parsed tokens) (q : Parsed tokens')
    (htree : q.tree = σ.tree p.tree) (hrest : q.rest = σ.tokens p.rest) :
    outcome (tail q) = σ.read (outcome (tail p)) := by
  -- On the tokens that the original reading has left; the other one may have more.
  induction hlength : p.rest.length using Nat.strongRecOn generalizing p q with
  | ind n ih =>
      have hp := hnext p
      have hq := hnext q
      rw [htree, hrest, hrewrite] at hq
      cases hstep : next p.tree p.rest with
      | ends =>
          rw [hstep] at hp hq
          rw [show outcome (tail q) = some (q.tree, q.rest) from hq,
            show outcome (tail p) = some (p.tree, p.rest) from hp, htree, hrest]
          rfl
      | fails =>
          rw [hstep] at hp hq
          rw [show outcome (tail q) = none from hq, show outcome (tail p) = none from hp]
          rfl
      | onward tree rest =>
          rw [hstep] at hp hq
          obtain ⟨p', hptree, hprest, hshorter, hp'⟩ := hp
          obtain ⟨q', hqtree, hqrest, -, hq'⟩ := hq
          rw [hp', hq']
          refine ih p'.rest.length ?_ p' q' ?_ ?_ rfl
          · rw [hprest, ← hlength]
            exact hshorter
          · rw [hqtree, hptree]
          · rw [hqrest, hprest]

theorem outcome_bind_rewrite
    (htail : ∀ {tokens tokens' : List Token} (p : Parsed tokens) (q : Parsed tokens'),
      q.tree = σ.tree p.tree → q.rest = σ.tokens p.rest →
        outcome (tail q) = σ.read (outcome (tail p)))
    {tokens tokens' : List Token} {x : Except SyntaxFault (Parsed tokens)}
    {x' : Except SyntaxFault (Parsed tokens')} (h : outcome x' = σ.read (outcome x)) :
    outcome (x'.bind tail) = σ.read (outcome (x.bind tail)) := by
  cases x with
  | error fault =>
      cases x' with
      | error fault' => rfl
      | ok q => cases h
  | ok p =>
      obtain ⟨q, rfl, htree, hrest⟩ := exists_of_outcome h
      exact htail p q htree hrest

end

section

variable {inner : Level}

theorem outcome_product_rewrite (hinner : Respects σ inner) (tokens : List Token) :
    outcome (product inner (σ.tokens tokens)) = σ.read (outcome (product inner tokens)) := by
  rw [product_eq_bind, product_eq_bind]
  exact outcome_bind_rewrite
    (outcome_tail_rewrite (follows_nextFactor inner) (nextFactor_rewrite hinner))
    (outcome_operand_rewrite hinner tokens)

theorem nextAddend_rewrite (hinner : Respects σ inner) (left : Tree) (tokens : List Token) :
    nextAddend inner (σ.tree left) (σ.tokens tokens) = σ.step (nextAddend inner left tokens) := by
  cases tokens with
  | nil => rfl
  | cons token rest =>
      cases token with
      | plus =>
          change Step.after (outcome (product inner (σ.tokens rest))) _ = _
          rw [outcome_product_rewrite hinner]
          exact after_rewrite _ fun _ => rfl
      | minus spelling =>
          change Step.after (outcome (product inner (σ.tokens rest))) _ = _
          rw [outcome_product_rewrite hinner]
          exact after_rewrite _ fun _ => rfl
      | percent =>
          rcases tokens_percent σ rest with h | ⟨spelling, h⟩ <;>
            (rw [h]; rfl)
      | _ => rfl

theorem outcome_sum_rewrite (hinner : Respects σ inner) (tokens : List Token) :
    outcome (sum inner (σ.tokens tokens)) = σ.read (outcome (sum inner tokens)) := by
  rw [sum_eq_bind, sum_eq_bind]
  exact outcome_bind_rewrite
    (outcome_tail_rewrite (follows_nextAddend inner) (nextAddend_rewrite hinner))
    (outcome_product_rewrite hinner tokens)

theorem respects_level (σ : Rewriting) (n : Nat) : Respects σ (level n) := by
  induction n with
  | zero => exact ⟨fun _ => rfl, fun _ => rfl⟩
  | succ n ih => exact ⟨outcome_operand_rewrite ih, outcome_sum_rewrite ih⟩

end

theorem tokens_eq_nil (tokens : List Token) : σ.tokens tokens = [] ↔ tokens = [] := by
  cases tokens with
  | nil => simp [Rewriting.tokens]
  | cons token rest =>
      cases token with
      | percent => rcases tokens_percent σ rest with h | ⟨spelling, h⟩ <;> simp [h]
      | _ => simp [Rewriting.tokens, Rewriting.token]

theorem length_le_length_tokens (tokens : List Token) :
    tokens.length ≤ (σ.tokens tokens).length := by
  induction tokens with
  | nil => exact Nat.le_refl 0
  | cons token rest ih =>
      cases token with
      | percent => rcases tokens_percent σ rest with h | ⟨spelling, h⟩ <;> (simp [h]; omega)
      | _ => simpa [Rewriting.tokens, Rewriting.token] using ih

theorem parse_tokens_eq_ok_iff {tokens : List Token} {tree' : Tree}
    (h : (σ.tokens tokens).length ≤ maxTokens) :
    parse (σ.tokens tokens) = .ok tree' ↔
      ∃ tree, parse tokens = .ok tree ∧ σ.tree tree = tree' := by
  have hlength : tokens.length ≤ maxTokens := Nat.le_trans (length_le_length_tokens tokens) h
  have hsum := outcome_sum_rewrite (respects_level σ maxDepth) tokens
  simp only [parse_eq_ok_iff_outcome, hsum, h, hlength, ne_eq, tokens_eq_nil, true_and]
  constructor
  · rintro ⟨hne, hread⟩
    obtain ⟨⟨tree, rest⟩, hread, heq⟩ := Option.map_eq_some_iff.mp hread
    obtain ⟨htree, hrest⟩ := Prod.mk.inj heq
    rw [(tokens_eq_nil rest).mp hrest] at hread
    exact ⟨tree, ⟨hne, hread⟩, htree⟩
  · rintro ⟨tree, ⟨hne, hread⟩, rfl⟩
    rw [hread]
    exact ⟨hne, rfl⟩

section

variable (hkeep : σ.hundredth? = none)

include hkeep

end

end PocketCalculator.Proofs.TokenRewriting
