import PocketCalculator.Calculation.Phrase

/-!
The grammar of expressions, apart from any way of reading it. A derivation keeps everything that is
written down: which operator stands where and in which spelling, where parentheses stand. Its
tokens, its tree and its depth are functions of it.
-/

namespace PocketCalculator.Proofs.ExpressionGrammar

open PocketCalculator.Calculation

inductive Nonterminal where
  | sum
  | addends
  | product
  | factors
  | operand
  | power
  | primary
deriving DecidableEq

/-- What joins two products, or stands before an operand. -/
inductive Sign where
  | plus
  | minus (spelling : Spelling)

/-- What joins two operands. -/
inductive Joiner where
  | times (spelling : Spelling)
  | divide (spelling : Spelling)
  | modulo

/-- The derivations of each nonterminal:

* sum: a product and addends, each of them a sign and a product;
* product: an operand and factors, each of them a joiner and an operand, or a percent sign, or a
  percent sign and an exponent;
* operand: a sign and an operand, or a power;
* power: a primary, perhaps with an exponent, which is an operand;
* primary: a number, a constant, or a sum in parentheses, perhaps after a function. -/
inductive Derivation : Nonterminal → Type where
  | sum (first : Derivation .product) (more : Derivation .addends) : Derivation .sum
  | noAddend : Derivation .addends
  | addend (sign : Sign) (right : Derivation .product) (more : Derivation .addends) :
      Derivation .addends
  | product (first : Derivation .operand) (more : Derivation .factors) : Derivation .product
  | noFactor : Derivation .factors
  | factor (joiner : Joiner) (right : Derivation .operand) (more : Derivation .factors) :
      Derivation .factors
  | percent (more : Derivation .factors) : Derivation .factors
  | percentPower (spelling : PowerSpelling) (exponent : Derivation .operand)
      (more : Derivation .factors) : Derivation .factors
  | signed (sign : Sign) (operand : Derivation .operand) : Derivation .operand
  | unsigned (power : Derivation .power) : Derivation .operand
  | plain (base : Derivation .primary) : Derivation .power
  | raised (base : Derivation .primary) (spelling : PowerSpelling)
      (exponent : Derivation .operand) : Derivation .power
  | number (value : Float) : Derivation .primary
  | pi : Derivation .primary
  | euler : Derivation .primary
  | group (inner : Derivation .sum) : Derivation .primary
  | call (f : MathFunction) (argument : Derivation .sum) : Derivation .primary

namespace Sign

def token : Sign → Token
  | plus => .plus
  | minus spelling => .minus spelling

/-- The operator of a sign between two products. -/
def binary : Sign → BinaryOperator
  | plus => .add
  | minus _ => .subtract

/-- The operator of a sign before an operand. -/
def unary : Sign → SignOperator
  | plus => .plus
  | minus _ => .negate

@[simp] theorem token_inj {sign sign' : Sign} : sign.token = sign'.token ↔ sign = sign' := by
  cases sign <;> cases sign' <;> simp [token]

end Sign

namespace Joiner

def token : Joiner → Token
  | times spelling => .times spelling
  | divide spelling => .divide spelling
  | modulo => .modulo

def operator : Joiner → BinaryOperator
  | times _ => .multiply
  | divide _ => .divide
  | modulo => .modulo

@[simp] theorem token_inj {joiner joiner' : Joiner} :
    joiner.token = joiner'.token ↔ joiner = joiner' := by
  cases joiner <;> cases joiner' <;> simp [token]

end Joiner

/-- What a phrase stands for: a tree, or what addends and factors make of the tree to their left. -/
abbrev Nonterminal.Meaning : Nonterminal → Type
  | addends | factors => Tree → Tree
  | sum | product | operand | power | primary => Tree

namespace Derivation

/-- The tokens that are derived. -/
@[simp] def tokens : {c : Nonterminal} → Derivation c → List Token
  | _, sum first more => first.tokens ++ more.tokens
  | _, noAddend => []
  | _, addend sign right more => sign.token :: (right.tokens ++ more.tokens)
  | _, product first more => first.tokens ++ more.tokens
  | _, noFactor => []
  | _, factor joiner right more => joiner.token :: (right.tokens ++ more.tokens)
  | _, percent more => .percent :: more.tokens
  | _, percentPower spelling exponent more =>
    .percent :: .power spelling :: (exponent.tokens ++ more.tokens)
  | _, signed sign operand => sign.token :: operand.tokens
  | _, unsigned power => power.tokens
  | _, plain base => base.tokens
  | _, raised base spelling exponent => base.tokens ++ .power spelling :: exponent.tokens
  | _, number value => [.number value]
  | _, pi => [.pi]
  | _, euler => [.euler]
  | _, group inner => .openParen :: (inner.tokens ++ [.closeParen])
  | _, call f argument => .function f :: .openParen :: (argument.tokens ++ [.closeParen])

/-- The tree that is derived. Addends and factors are taken up from left to right, an exponent
belongs to the primary before it, and the hundred of a percent sign takes the exponent after it. -/
def tree : {c : Nonterminal} → Derivation c → c.Meaning
  | _, sum first more => more.tree first.tree
  | _, noAddend => fun left => left
  | _, addend sign right more => fun left => more.tree (.binary sign.binary left right.tree)
  | _, product first more => more.tree first.tree
  | _, noFactor => fun left => left
  | _, factor joiner right more => fun left =>
    more.tree (.binary joiner.operator left right.tree)
  | _, percent more => fun left => more.tree (.percent left)
  | _, percentPower _ exponent more => fun left =>
    more.tree (.binary .divide left (.binary .power (.number 100) exponent.tree))
  | _, signed sign operand => .sign sign.unary operand.tree
  | _, unsigned power => power.tree
  | _, plain base => base.tree
  | _, raised base _ exponent => .binary .power base.tree exponent.tree
  | _, number value => .number value
  | _, pi => .number Calculation.pi
  | _, euler => .number Calculation.euler
  | _, group inner => inner.tree
  | _, call f argument => .call f argument.tree

/-- The number of levels below the phrase. The inside of parentheses, the operand of a sign and an
exponent lie one level deeper; phrases side by side do not add up. -/
def depth : {c : Nonterminal} → Derivation c → Nat
  | _, sum first more => max first.depth more.depth
  | _, noAddend => 0
  | _, addend _ right more => max right.depth more.depth
  | _, product first more => max first.depth more.depth
  | _, noFactor => 0
  | _, factor _ right more => max right.depth more.depth
  | _, percent more => more.depth
  | _, percentPower _ exponent more => max (exponent.depth + 1) more.depth
  | _, signed _ operand => operand.depth + 1
  | _, unsigned power => power.depth
  | _, plain base => base.depth
  | _, raised base _ exponent => max base.depth (exponent.depth + 1)
  | _, number _ => 0
  | _, pi => 0
  | _, euler => 0
  | _, group inner => inner.depth + 1
  | _, call _ argument => argument.depth + 1

end Derivation

/-- How tightly a phrase holds together. -/
def Nonterminal.tightness : Nonterminal → Nat
  | sum | addends => 0
  | product | factors => 1
  | operand | power => 2
  | primary => 3

/-- How tightly a token binds what stands before it. -/
def tightness? : Token → Option Nat
  | .plus | .minus _ => some 0
  | .times _ | .divide _ | .modulo | .percent => some 1
  | .power _ => some 2
  | _ => none

@[simp] theorem tightness?_sign (sign : Sign) : tightness? sign.token = some 0 := by
  cases sign <;> rfl

@[simp] theorem tightness?_joiner (joiner : Joiner) : tightness? joiner.token = some 1 := by
  cases joiner <;> rfl

/-- A phrase ends where the next token, if there is one, does not go on with it. -/
def Ends (c : Nonterminal) (rest : List Token) : Prop :=
  ∀ token ∈ rest.head?, ∀ n ∈ tightness? token, n < c.tightness

@[simp] theorem ends_nil (c : Nonterminal) : Ends c [] := by
  simp [Ends]

@[simp] theorem ends_cons {c : Nonterminal} {token : Token} {rest : List Token} :
    Ends c (token :: rest) ↔ ∀ n ∈ tightness? token, n < c.tightness := by
  simp [Ends]

theorem Ends.mono {c c' : Nonterminal} {rest : List Token} (h : Ends c rest)
    (hle : c.tightness ≤ c'.tightness) : Ends c' rest :=
  fun token htoken n hn => Nat.lt_of_lt_of_le (h token htoken n hn) hle

theorem ends_product_of_addends {rest : List Token} (more : Derivation .addends)
    (h : Ends .addends rest) : Ends .product (more.tokens ++ rest) := by
  cases more with
  | noAddend => exact h.mono (by decide)
  | addend sign right more => simp [Derivation.tokens, Nonterminal.tightness]

theorem ends_operand_of_factors {rest : List Token} (more : Derivation .factors)
    (h : Ends .factors rest) : Ends .operand (more.tokens ++ rest) := by
  cases more with
  | noFactor => exact h.mono (by decide)
  | factor joiner right more => simp [Derivation.tokens, Nonterminal.tightness]
  | percent more => simp [Derivation.tokens, tightness?, Nonterminal.tightness]
  | percentPower spelling exponent more =>
      simp [Derivation.tokens, tightness?, Nonterminal.tightness]

theorem eq_noAddend_of_ends {rest rest' : List Token} (more : Derivation .addends)
    (h : Ends .addends rest) (heq : rest = more.tokens ++ rest') : more = .noAddend := by
  subst heq
  cases more with
  | noAddend => rfl
  | addend sign right more => simp [Derivation.tokens, Nonterminal.tightness] at h

theorem eq_noFactor_of_ends {rest rest' : List Token} (more : Derivation .factors)
    (h : Ends .factors rest) (heq : rest = more.tokens ++ rest') : more = .noFactor := by
  subst heq
  cases more with
  | noFactor => rfl
  | factor joiner right more => simp [Derivation.tokens, Nonterminal.tightness] at h
  | percent more => simp [Derivation.tokens, tightness?, Nonterminal.tightness] at h
  | percentPower spelling exponent more =>
      simp [Derivation.tokens, tightness?, Nonterminal.tightness] at h

theorem ne_power_of_ends {rest : List Token} (h : Ends .power rest) (spelling : PowerSpelling)
    (later : List Token) : rest ≠ .power spelling :: later := by
  rintro rfl
  simp [tightness?, Nonterminal.tightness] at h

theorem factors_ne_power {rest : List Token} (more : Derivation .factors) (h : Ends .factors rest)
    (spelling : PowerSpelling) (later : List Token) :
    more.tokens ++ rest ≠ .power spelling :: later :=
  ne_power_of_ends ((ends_operand_of_factors more h).mono (by decide)) spelling later

/-- The tokens that a phrase without a sign can start with. -/
def startsPrimary : Token → Bool
  | .number _ | .pi | .euler | .openParen | .function _ => true
  | _ => false

theorem exists_tokens_primary (base : Derivation .primary) :
    ∃ token rest, base.tokens = token :: rest ∧ startsPrimary token := by
  cases base <;> exact ⟨_, _, rfl, rfl⟩

theorem exists_tokens_power (power : Derivation .power) :
    ∃ token rest, power.tokens = token :: rest ∧ startsPrimary token := by
  cases power with
  | plain base => exact exists_tokens_primary base
  | raised base spelling exponent =>
      obtain ⟨token, rest, htokens, hstart⟩ := exists_tokens_primary base
      exact ⟨token, rest ++ .power spelling :: exponent.tokens,
        by simp [Derivation.tokens, htokens], hstart⟩

/-- The tokens that a phrase can start with. -/
def startsOperand : Token → Bool
  | .plus | .minus _ => true
  | token => startsPrimary token

theorem startsOperand_of_startsPrimary {token : Token} (h : startsPrimary token) :
    startsOperand token := by
  cases token <;> first | rfl | cases h

theorem exists_tokens_operand (operand : Derivation .operand) :
    ∃ token rest, operand.tokens = token :: rest ∧ startsOperand token := by
  cases operand with
  | signed sign operand => exact ⟨sign.token, operand.tokens, rfl, by cases sign <;> rfl⟩
  | unsigned power =>
      obtain ⟨token, rest, htokens, hstart⟩ := exists_tokens_power power
      exact ⟨token, rest, htokens, startsOperand_of_startsPrimary hstart⟩

theorem exists_tokens_product (product : Derivation .product) :
    ∃ token rest, product.tokens = token :: rest ∧ startsOperand token := by
  cases product with
  | product first more =>
      obtain ⟨token, rest, htokens, hstart⟩ := exists_tokens_operand first
      exact ⟨token, rest ++ more.tokens, by simp [Derivation.tokens, htokens], hstart⟩

theorem exists_tokens_sum (sum : Derivation .sum) :
    ∃ token rest, sum.tokens = token :: rest ∧ startsOperand token := by
  cases sum with
  | sum first more =>
      obtain ⟨token, rest, htokens, hstart⟩ := exists_tokens_product first
      exact ⟨token, rest ++ more.tokens, by simp [Derivation.tokens, htokens], hstart⟩

theorem sign_cons_ne_power {sign : Sign} {after rest : List Token}
    (power : Derivation .power) : sign.token :: after ≠ power.tokens ++ rest := by
  obtain ⟨token, more, htokens, hstart⟩ := exists_tokens_power power
  rw [htokens]
  intro heq
  rw [← (List.cons.inj heq).1] at hstart
  cases sign <;> cases hstart

/-- No other phrase of the same kind can be read at the start of the same tokens, if both are as
long as they can be. -/
def Determined {c : Nonterminal} (d : Derivation c) : Prop :=
  ∀ (d' : Derivation c) {rest rest' : List Token}, Ends c rest → Ends c rest' →
    d.tokens ++ rest = d'.tokens ++ rest' → d = d' ∧ rest = rest'

section

open ExpressionGrammar.Derivation

variable {rest rest' : List Token}

theorem Determined.product_addends {right right' : Derivation .product}
    {more more' : Derivation .addends} (hright : Determined right) (hmore : Determined more)
    (hends : Ends .addends rest) (hends' : Ends .addends rest')
    (heq : right.tokens ++ more.tokens ++ rest = right'.tokens ++ more'.tokens ++ rest') :
    right = right' ∧ more = more' ∧ rest = rest' := by
  rw [List.append_assoc, List.append_assoc] at heq
  obtain ⟨rfl, hafter⟩ := hright right' (ends_product_of_addends more hends)
    (ends_product_of_addends more' hends') heq
  exact ⟨rfl, hmore more' hends hends' hafter⟩

theorem Determined.operand_factors {right right' : Derivation .operand}
    {more more' : Derivation .factors} (hright : Determined right) (hmore : Determined more)
    (hends : Ends .factors rest) (hends' : Ends .factors rest')
    (heq : right.tokens ++ more.tokens ++ rest = right'.tokens ++ more'.tokens ++ rest') :
    right = right' ∧ more = more' ∧ rest = rest' := by
  rw [List.append_assoc, List.append_assoc] at heq
  obtain ⟨rfl, hafter⟩ := hright right' (ends_operand_of_factors more hends)
    (ends_operand_of_factors more' hends') heq
  exact ⟨rfl, hmore more' hends hends' hafter⟩

theorem determined_addend {right : Derivation .product} {more : Derivation .addends}
    (sign : Sign) (hright : Determined right) (hmore : Determined more) :
    Determined (addend sign right more) := by
  intro d' rest rest' hends hends' heq
  cases d' with
  | noAddend => cases eq_noAddend_of_ends (addend sign right more) hends' heq.symm
  | addend sign' right' more' =>
      simp only [tokens, List.cons_append, List.cons.injEq, Sign.token_inj] at heq
      obtain ⟨rfl, hafter⟩ := heq
      obtain ⟨rfl, rfl, rfl⟩ := hright.product_addends hmore hends hends' hafter
      exact ⟨rfl, rfl⟩

theorem determined_factor {right : Derivation .operand} {more : Derivation .factors}
    (joiner : Joiner) (hright : Determined right) (hmore : Determined more) :
    Determined (factor joiner right more) := by
  intro d' rest rest' hends hends' heq
  cases d' with
  | noFactor => cases eq_noFactor_of_ends (factor joiner right more) hends' heq.symm
  | factor joiner' right' more' =>
      simp only [tokens, List.cons_append, List.cons.injEq, Joiner.token_inj] at heq
      obtain ⟨rfl, hafter⟩ := heq
      obtain ⟨rfl, rfl, rfl⟩ := hright.operand_factors hmore hends hends' hafter
      exact ⟨rfl, rfl⟩
  | percent more' => cases joiner <;> cases (List.cons.inj heq).1
  | percentPower spelling' exponent' more' => cases joiner <;> cases (List.cons.inj heq).1

theorem determined_percent {more : Derivation .factors} (hmore : Determined more) :
    Determined (percent more) := by
  intro d' rest rest' hends hends' heq
  cases d' with
  | noFactor => cases eq_noFactor_of_ends (percent more) hends' heq.symm
  | factor joiner' right' more' => cases joiner' <;> cases (List.cons.inj heq).1
  | percent more' =>
      obtain ⟨rfl, rfl⟩ := hmore more' hends hends' (List.cons.inj heq).2
      exact ⟨rfl, rfl⟩
  | percentPower spelling' exponent' more' =>
      exact absurd (List.cons.inj heq).2 (factors_ne_power more hends _ _)

theorem determined_percentPower {exponent : Derivation .operand} {more : Derivation .factors}
    (spelling : PowerSpelling) (hexponent : Determined exponent) (hmore : Determined more) :
    Determined (percentPower spelling exponent more) := by
  intro d' rest rest' hends hends' heq
  cases d' with
  | noFactor =>
      cases eq_noFactor_of_ends (percentPower spelling exponent more) hends' heq.symm
  | factor joiner' right' more' => cases joiner' <;> cases (List.cons.inj heq).1
  | percent more' =>
      exact absurd (List.cons.inj heq).2.symm (factors_ne_power more' hends' _ _)
  | percentPower spelling' exponent' more' =>
      simp only [tokens, List.cons_append, List.cons.injEq, Token.power.injEq, true_and] at heq
      obtain ⟨rfl, hafter⟩ := heq
      obtain ⟨rfl, rfl, rfl⟩ := hexponent.operand_factors hmore hends hends' hafter
      exact ⟨rfl, rfl⟩

theorem determined_signed {operand : Derivation .operand} (sign : Sign)
    (hoperand : Determined operand) : Determined (signed sign operand) := by
  intro d' rest rest' hends hends' heq
  cases d' with
  | signed sign' operand' =>
      simp only [tokens, List.cons_append, List.cons.injEq, Sign.token_inj] at heq
      obtain ⟨rfl, hafter⟩ := heq
      obtain ⟨rfl, rfl⟩ := hoperand operand' hends hends' hafter
      exact ⟨rfl, rfl⟩
  | unsigned power' => exact absurd heq (sign_cons_ne_power power')

theorem determined_unsigned {power : Derivation .power} (hpower : Determined power) :
    Determined (unsigned power) := by
  intro d' rest rest' hends hends' heq
  cases d' with
  | signed sign' operand' => exact absurd heq.symm (sign_cons_ne_power power)
  | unsigned power' =>
      obtain ⟨rfl, rfl⟩ := hpower power' hends hends' heq
      exact ⟨rfl, rfl⟩

theorem determined_plain {base : Derivation .primary} (hbase : Determined base) :
    Determined (plain base) := by
  intro d' rest rest' hends hends' heq
  cases d' with
  | plain base' =>
      obtain ⟨rfl, rfl⟩ := hbase base' (hends.mono (by decide)) (hends'.mono (by decide)) heq
      exact ⟨rfl, rfl⟩
  | raised base' spelling' exponent' =>
      simp only [tokens, List.append_assoc] at heq
      obtain ⟨-, hrest⟩ := hbase base' (hends.mono (by decide))
        (by simp [tightness?, Nonterminal.tightness]) heq
      simp [hrest, tightness?, Nonterminal.tightness] at hends

theorem determined_raised {base : Derivation .primary} {exponent : Derivation .operand}
    (spelling : PowerSpelling) (hbase : Determined base) (hexponent : Determined exponent) :
    Determined (raised base spelling exponent) := by
  intro d' rest rest' hends hends' heq
  cases d' with
  | plain base' =>
      simp only [tokens, List.append_assoc] at heq
      obtain ⟨-, hrest⟩ := hbase base' (by simp [tightness?, Nonterminal.tightness])
        (hends'.mono (by decide)) heq
      simp [← hrest, tightness?, Nonterminal.tightness] at hends'
  | raised base' spelling' exponent' =>
      simp only [tokens, List.append_assoc] at heq
      obtain ⟨rfl, hafter⟩ := hbase base' (by simp [tightness?, Nonterminal.tightness])
        (by simp [tightness?, Nonterminal.tightness]) heq
      simp only [List.cons_append, List.cons.injEq, Token.power.injEq] at hafter
      obtain ⟨rfl, hafter⟩ := hafter
      obtain ⟨rfl, rfl⟩ := hexponent exponent' hends hends' hafter
      exact ⟨rfl, rfl⟩

theorem determined_group {inner : Derivation .sum} (hinner : Determined inner) :
    Determined (group inner) := by
  intro d' rest rest' _ _ heq
  cases d' with
  | group inner' =>
      simp only [tokens, List.cons_append, List.append_assoc, List.cons.injEq, true_and] at heq
      obtain ⟨rfl, hclose⟩ := hinner inner' (by simp [tightness?]) (by simp [tightness?]) heq
      exact ⟨rfl, by simpa using hclose⟩
  | _ => simp [tokens] at heq

theorem determined_call {argument : Derivation .sum} (f : MathFunction)
    (hargument : Determined argument) : Determined (call f argument) := by
  intro d' rest rest' _ _ heq
  cases d' with
  | call f' argument' =>
      simp only [tokens, List.cons_append, List.append_assoc, List.cons.injEq,
        Token.function.injEq, true_and] at heq
      obtain ⟨rfl, hafter⟩ := heq
      obtain ⟨rfl, hclose⟩ := hargument argument' (by simp [tightness?]) (by simp [tightness?])
        hafter
      exact ⟨rfl, by simpa using hclose⟩
  | _ => simp [tokens] at heq

theorem determined {c : Nonterminal} (d : Derivation c) : Determined d := by
  induction d with
  | sum first more ihFirst ihMore =>
      intro d' rest rest' hends hends' heq
      cases d' with
      | sum first' more' =>
          obtain ⟨rfl, rfl, rfl⟩ := ihFirst.product_addends ihMore hends hends' heq
          exact ⟨rfl, rfl⟩
  | noAddend =>
      intro d' rest rest' hends _ heq
      obtain rfl := eq_noAddend_of_ends d' hends heq
      exact ⟨rfl, heq⟩
  | addend sign _ _ ihRight ihMore => exact determined_addend sign ihRight ihMore
  | product first more ihFirst ihMore =>
      intro d' rest rest' hends hends' heq
      cases d' with
      | product first' more' =>
          obtain ⟨rfl, rfl, rfl⟩ := ihFirst.operand_factors ihMore hends hends' heq
          exact ⟨rfl, rfl⟩
  | noFactor =>
      intro d' rest rest' hends _ heq
      obtain rfl := eq_noFactor_of_ends d' hends heq
      exact ⟨rfl, heq⟩
  | factor joiner _ _ ihRight ihMore => exact determined_factor joiner ihRight ihMore
  | percent _ ihMore => exact determined_percent ihMore
  | percentPower spelling _ _ ihExponent ihMore =>
      exact determined_percentPower spelling ihExponent ihMore
  | signed sign _ ih => exact determined_signed sign ih
  | unsigned _ ih => exact determined_unsigned ih
  | plain _ ih => exact determined_plain ih
  | raised _ spelling _ ihBase ihExponent => exact determined_raised spelling ihBase ihExponent
  | number value =>
      intro d' rest rest' _ _ heq
      cases d' <;> simp_all [tokens]
  | pi =>
      intro d' rest rest' _ _ heq
      cases d' <;> simp_all [tokens]
  | euler =>
      intro d' rest rest' _ _ heq
      cases d' <;> simp_all [tokens]
  | group _ ih => exact determined_group ih
  | call f _ ih => exact determined_call f ih

/-- No tokens have two derivations. -/
theorem tokens_injective {c : Nonterminal} {d d' : Derivation c} (h : d.tokens = d'.tokens) :
    d = d' :=
  (determined d d' (ends_nil c) (ends_nil c) (by rw [h])).1

end

end PocketCalculator.Proofs.ExpressionGrammar
