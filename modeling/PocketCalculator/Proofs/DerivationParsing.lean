import PocketCalculator.Calculation.Engine
import PocketCalculator.Proofs.ExpressionGrammar
import PocketCalculator.Proofs.PhraseOutcome

namespace PocketCalculator.Proofs.DerivationParsing

open PocketCalculator.Calculation
open PocketCalculator.Proofs.ExpressionGrammar
open PocketCalculator.Proofs.PhraseOutcome

/-- Everything that the phrases of a level read has a derivation with less than `n` levels below
it. -/
structure Sound (inner : Level) (n : Nat) : Prop where
  operand : ∀ {tokens tree rest}, outcome (inner.operand tokens) = some (tree, rest) →
    ∃ d : Derivation .operand, d.depth < n ∧ d.tree = tree ∧ tokens = d.tokens ++ rest
  sum : ∀ {tokens tree rest}, outcome (inner.sum tokens) = some (tree, rest) →
    ∃ d : Derivation .sum, d.depth < n ∧ d.tree = tree ∧ tokens = d.tokens ++ rest

section

variable {inner : Level} {n : Nat} {tokens rest : List Token} {tree : Tree}

theorem exists_derivation_group (hinner : Sound inner n)
    (h : outcome (group inner tokens) = some (tree, rest)) :
    ∃ d : Derivation .sum, d.depth < n ∧ d.tree = tree ∧
      tokens = d.tokens ++ .closeParen :: rest := by
  rw [outcome_group] at h
  split at h
  · cases h
  · obtain ⟨⟨inside, after⟩, hsum, hclose⟩ := Option.bind_eq_some_iff.mp h
    obtain ⟨d, hdepth, rfl, rfl⟩ := hinner.sum hsum
    refine ⟨d, hdepth, ?_⟩
    unfold close at hclose
    split at hclose
    · simp_all
    · cases hclose

theorem exists_derivation_primary (hinner : Sound inner n)
    (h : outcome (primary inner tokens) = some (tree, rest)) :
    ∃ d : Derivation .primary, d.depth ≤ n ∧ d.tree = tree ∧ tokens = d.tokens ++ rest := by
  unfold primary at h
  split at h
  · rename_i value later
    cases h
    exact ⟨.number value, Nat.zero_le n, rfl, rfl⟩
  · cases h
    exact ⟨.pi, Nat.zero_le n, rfl, rfl⟩
  · cases h
    exact ⟨.euler, Nat.zero_le n, rfl, rfl⟩
  · rename_i later
    change outcome (primary inner (.openParen :: later)) = _ at h
    rw [outcome_primary_group] at h
    obtain ⟨d, hdepth, rfl, rfl⟩ := exists_derivation_group hinner h
    exact ⟨.group d, hdepth, rfl, by simp [Derivation.tokens]⟩
  · rename_i f later
    change outcome (primary inner (.function f :: .openParen :: later)) = _ at h
    rw [outcome_primary_call, Option.map_eq_some_iff] at h
    obtain ⟨⟨inside, after⟩, hgroup, heq⟩ := h
    obtain ⟨d, hdepth, rfl, rfl⟩ := exists_derivation_group hinner hgroup
    cases heq
    exact ⟨.call f d, hdepth, rfl, by simp [Derivation.tokens]⟩
  · cases h
  · cases h
  · cases h

theorem exists_derivation_power (hinner : Sound inner n)
    (h : outcome (power inner tokens) = some (tree, rest)) :
    ∃ d : Derivation .power, d.depth ≤ n ∧ d.tree = tree ∧ tokens = d.tokens ++ rest := by
  rw [outcome_power, Option.bind_eq_some_iff] at h
  obtain ⟨⟨base, after⟩, hbase, hraise⟩ := h
  obtain ⟨d, hdepth, rfl, rfl⟩ := exists_derivation_primary hinner hbase
  unfold raise at hraise
  split at hraise
  · rename_i base spelling later heq
    cases heq
    obtain ⟨⟨exponent, final⟩, hexponent, heq⟩ := Option.map_eq_some_iff.mp hraise
    obtain ⟨e, hedepth, rfl, rfl⟩ := hinner.operand hexponent
    cases heq
    exact ⟨.raised d spelling e, Nat.max_le.mpr ⟨hdepth, hedepth⟩, rfl, by simp [Derivation.tokens]⟩
  · rename_i base later hpower heq
    cases heq
    cases hraise
    exact ⟨.plain d, hdepth, rfl, rfl⟩

theorem signOf?_eq_some {token : Token} {op : SignOperator} (h : signOf? token = some op) :
    ∃ sign : Sign, sign.token = token ∧ sign.unary = op := by
  cases token <;> cases h
  · exact ⟨.plus, rfl, rfl⟩
  · exact ⟨.minus _, rfl, rfl⟩

theorem additive?_eq_some {token : Token} {op : BinaryOperator} (h : additive? token = some op) :
    ∃ sign : Sign, sign.token = token ∧ sign.binary = op := by
  cases token <;> cases h
  · exact ⟨.plus, rfl, rfl⟩
  · exact ⟨.minus _, rfl, rfl⟩

theorem multiplicative?_eq_some {token : Token} {op : BinaryOperator}
    (h : multiplicative? token = some op) :
    ∃ joiner : Joiner, joiner.token = token ∧ joiner.operator = op := by
  cases token <;> cases h
  · exact ⟨.times _, rfl, rfl⟩
  · exact ⟨.divide _, rfl, rfl⟩
  · exact ⟨.modulo, rfl, rfl⟩

theorem exists_derivation_operand (hinner : Sound inner n)
    (h : outcome (operand inner tokens) = some (tree, rest)) :
    ∃ d : Derivation .operand, d.depth ≤ n ∧ d.tree = tree ∧ tokens = d.tokens ++ rest := by
  cases tokens with
  | nil => cases h
  | cons token later =>
      cases hsign : signOf? token with
      | some op =>
          rw [outcome_operand_signed inner later hsign, Option.map_eq_some_iff] at h
          obtain ⟨⟨operand, after⟩, hoperand, heq⟩ := h
          obtain ⟨d, hdepth, rfl, rfl⟩ := hinner.operand hoperand
          obtain ⟨sign, rfl, rfl⟩ := signOf?_eq_some hsign
          cases heq
          exact ⟨.signed sign d, hdepth, rfl, rfl⟩
      | none =>
          rw [operand_unsigned inner later hsign] at h
          obtain ⟨d, hdepth, rfl, heq⟩ := exists_derivation_power hinner h
          exact ⟨.unsigned d, hdepth, rfl, heq⟩

theorem exists_derivation_factors (hinner : Sound inner n) (p : Parsed tokens)
    (h : outcome (productTail inner p) = some (tree, rest)) :
    ∃ d : Derivation .factors, d.depth ≤ n ∧ d.tree p.tree = tree ∧
      p.rest = d.tokens ++ rest := by
  induction hlength : p.rest.length using Nat.strongRecOn generalizing p with
  | _ length ih =>
      subst hlength
      have hstep := follows_nextFactor inner p
      unfold nextFactor at hstep
      split at hstep
      · rename_i spelling later heq
        obtain ⟨right, after, hread, hlt, q, hqtree, hqrest, hq⟩ :=
          exists_of_follows_after hstep h
        obtain ⟨e, hedepth, rfl, rfl⟩ := hinner.operand hread
        obtain ⟨d, hdepth, htree, htokens⟩ := ih q.rest.length (hqrest ▸ hlt) q hq rfl
        refine ⟨.percentPower spelling e d, Nat.max_le.mpr ⟨hedepth, hdepth⟩, ?_, ?_⟩
        · rw [← htree, hqtree]
          rfl
        · rw [heq, ← hqrest, htokens]
          simp [Derivation.tokens]
      · rename_i later hpower heq
        obtain ⟨q, hqtree, hqrest, hlt, hq⟩ := hstep
        obtain ⟨d, hdepth, htree, htokens⟩ := ih q.rest.length (hqrest ▸ hlt) q (hq ▸ h) rfl
        refine ⟨.percent d, hdepth, ?_, ?_⟩
        · rw [← htree, hqtree]
          rfl
        · rw [heq, ← hqrest, htokens]
          rfl
      · rename_i token later hpower hpercent heq
        cases hjoiner : multiplicative? token with
        | none =>
            rw [hjoiner] at hstep
            rw [show outcome _ = _ from hstep] at h
            cases h
            exact ⟨.noFactor, Nat.zero_le n, rfl, rfl⟩
        | some op =>
            rw [hjoiner] at hstep
            obtain ⟨right, after, hread, hlt, q, hqtree, hqrest, hq⟩ :=
              exists_of_follows_after hstep h
            obtain ⟨joiner, rfl, rfl⟩ := multiplicative?_eq_some hjoiner
            obtain ⟨e, hedepth, rfl, rfl⟩ := exists_derivation_operand hinner hread
            obtain ⟨d, hdepth, htree, htokens⟩ := ih q.rest.length (hqrest ▸ hlt) q hq rfl
            refine ⟨.factor joiner e d, Nat.max_le.mpr ⟨hedepth, hdepth⟩, ?_, ?_⟩
            · rw [← htree, hqtree]
              rfl
            · rw [heq, ← hqrest, htokens]
              simp [Derivation.tokens]
      · rw [show outcome _ = _ from hstep] at h
        cases h
        exact ⟨.noFactor, Nat.zero_le n, rfl, rfl⟩

theorem exists_derivation_product (hinner : Sound inner n)
    (h : outcome (product inner tokens) = some (tree, rest)) :
    ∃ d : Derivation .product, d.depth ≤ n ∧ d.tree = tree ∧ tokens = d.tokens ++ rest := by
  rw [product_eq_bind] at h
  obtain ⟨p, hread, htail⟩ := exists_of_outcome_bind h
  obtain ⟨first, hfirst, htree, htokens⟩ := exists_derivation_operand hinner hread
  obtain ⟨more, hmore, rfl, hrest⟩ := exists_derivation_factors hinner p htail
  refine ⟨.product first more, Nat.max_le.mpr ⟨hfirst, hmore⟩, ?_, ?_⟩
  · rw [← htree]
    rfl
  · rw [htokens, hrest]
    simp [Derivation.tokens]

theorem exists_derivation_addends (hinner : Sound inner n) (p : Parsed tokens)
    (h : outcome (sumTail inner p) = some (tree, rest)) :
    ∃ d : Derivation .addends, d.depth ≤ n ∧ d.tree p.tree = tree ∧
      p.rest = d.tokens ++ rest := by
  induction hlength : p.rest.length using Nat.strongRecOn generalizing p with
  | _ length ih =>
      subst hlength
      have hstep := follows_nextAddend inner p
      unfold nextAddend at hstep
      split at hstep
      · rename_i token later heq
        cases hsign : additive? token with
        | none =>
            rw [hsign] at hstep
            rw [show outcome _ = _ from hstep] at h
            cases h
            exact ⟨.noAddend, Nat.zero_le n, rfl, rfl⟩
        | some op =>
            rw [hsign] at hstep
            obtain ⟨right, after, hread, hlt, q, hqtree, hqrest, hq⟩ :=
              exists_of_follows_after hstep h
            obtain ⟨sign, rfl, rfl⟩ := additive?_eq_some hsign
            obtain ⟨e, hedepth, rfl, rfl⟩ := exists_derivation_product hinner hread
            obtain ⟨d, hdepth, htree, htokens⟩ := ih q.rest.length (hqrest ▸ hlt) q hq rfl
            refine ⟨.addend sign e d, Nat.max_le.mpr ⟨hedepth, hdepth⟩, ?_, ?_⟩
            · rw [← htree, hqtree]
              rfl
            · rw [heq, ← hqrest, htokens]
              simp [Derivation.tokens]
      · rw [show outcome _ = _ from hstep] at h
        cases h
        exact ⟨.noAddend, Nat.zero_le n, rfl, rfl⟩

theorem exists_derivation_sum (hinner : Sound inner n)
    (h : outcome (sum inner tokens) = some (tree, rest)) :
    ∃ d : Derivation .sum, d.depth ≤ n ∧ d.tree = tree ∧ tokens = d.tokens ++ rest := by
  rw [sum_eq_bind] at h
  obtain ⟨p, hread, htail⟩ := exists_of_outcome_bind h
  obtain ⟨first, hfirst, htree, htokens⟩ := exists_derivation_product hinner hread
  obtain ⟨more, hmore, rfl, hrest⟩ := exists_derivation_addends hinner p htail
  refine ⟨.sum first more, Nat.max_le.mpr ⟨hfirst, hmore⟩, ?_, ?_⟩
  · rw [← htree]
    rfl
  · rw [htokens, hrest]
    simp [Derivation.tokens]

end

theorem sound_level (n : Nat) : Sound (level n) n := by
  induction n with
  | zero =>
      constructor
      · intro tokens tree rest h
        cases h
      · intro tokens tree rest h
        cases h
  | succ n ih =>
      constructor
      · intro tokens tree rest h
        obtain ⟨d, hdepth, hd⟩ := exists_derivation_operand ih h
        exact ⟨d, Nat.lt_succ_of_le hdepth, hd⟩
      · intro tokens tree rest h
        obtain ⟨d, hdepth, hd⟩ := exists_derivation_sum ih h
        exact ⟨d, Nat.lt_succ_of_le hdepth, hd⟩

/-- The phrase for a nonterminal reads the derivation wherever it ends. For addends and factors the
phrase is the one that goes on after what stands to their left. -/
def ReadBy (inner : Level) : {c : Nonterminal} → Derivation c → Prop
  | .sum, d => ∀ rest, Ends .sum rest →
      outcome (sum inner (d.tokens ++ rest)) = some (d.tree, rest)
  | .addends, d => ∀ {tokens : List Token} (p : Parsed tokens) rest, Ends .addends rest →
      p.rest = d.tokens ++ rest → outcome (sumTail inner p) = some (d.tree p.tree, rest)
  | .product, d => ∀ rest, Ends .product rest →
      outcome (product inner (d.tokens ++ rest)) = some (d.tree, rest)
  | .factors, d => ∀ {tokens : List Token} (p : Parsed tokens) rest, Ends .factors rest →
      p.rest = d.tokens ++ rest → outcome (productTail inner p) = some (d.tree p.tree, rest)
  | .operand, d => ∀ rest, Ends .operand rest →
      outcome (operand inner (d.tokens ++ rest)) = some (d.tree, rest)
  | .power, d => ∀ rest, Ends .power rest →
      outcome (power inner (d.tokens ++ rest)) = some (d.tree, rest)
  | .primary, d => ∀ rest, outcome (primary inner (d.tokens ++ rest)) = some (d.tree, rest)

section

variable {inner : Level} {left : Tree} {rest : List Token}

theorem nextAddend_sign (sign : Sign) :
    nextAddend inner left (sign.token :: rest) =
      .after (outcome (product inner rest)) (.binary sign.binary left) := by
  cases sign <;> rfl

theorem nextAddend_of_ends (h : Ends .addends rest) : nextAddend inner left rest = .ends := by
  cases rest with
  | nil => rfl
  | cons token rest => cases token <;> simp_all [nextAddend, additive?, tightness?,
      Nonterminal.tightness]

theorem nextFactor_joiner (joiner : Joiner) :
    nextFactor inner left (joiner.token :: rest) =
      .after (outcome (operand inner rest)) (.binary joiner.operator left) := by
  cases joiner <;> rfl

theorem nextFactor_of_ends (h : Ends .factors rest) : nextFactor inner left rest = .ends := by
  cases rest with
  | nil => rfl
  | cons token rest => cases token <;> simp_all [nextFactor, multiplicative?, tightness?,
      Nonterminal.tightness]

theorem readBy_sum {first : Derivation .product} {more : Derivation .addends}
    (hfirst : ReadBy inner first) (hmore : ReadBy inner more) :
    ReadBy inner (.sum first more) := by
  intro rest hends
  have hread := hfirst (more.tokens ++ rest) (ends_product_of_addends more hends)
  obtain ⟨p, hp, htree, hrest⟩ := exists_of_outcome hread
  rw [Derivation.tokens, List.append_assoc, sum_eq_bind, hp]
  rw [show outcome ((Except.ok p).bind (sumTail inner)) = _ from hmore p rest hends hrest, htree]
  rfl

theorem readBy_product {first : Derivation .operand} {more : Derivation .factors}
    (hfirst : ReadBy inner first) (hmore : ReadBy inner more) :
    ReadBy inner (.product first more) := by
  intro rest hends
  have hread := hfirst (more.tokens ++ rest) (ends_operand_of_factors more hends)
  obtain ⟨p, hp, htree, hrest⟩ := exists_of_outcome hread
  rw [Derivation.tokens, List.append_assoc, product_eq_bind, hp]
  rw [show outcome ((Except.ok p).bind (productTail inner)) = _ from hmore p rest hends hrest,
    htree]
  rfl

theorem readBy_addend (sign : Sign) {right : Derivation .product} {more : Derivation .addends}
    (hright : ReadBy inner right) (hmore : ReadBy inner more) :
    ReadBy inner (.addend sign right more) := by
  intro tokens p rest hends hrest
  have hstep := follows_nextAddend inner p
  rw [hrest, Derivation.tokens, List.cons_append, List.append_assoc, nextAddend_sign,
    hright (more.tokens ++ rest) (ends_product_of_addends more hends)] at hstep
  obtain ⟨q, hqtree, hqrest, -, hq⟩ := hstep
  rw [hq, hmore q rest hends hqrest, hqtree]
  rfl

theorem readBy_factor (joiner : Joiner) {right : Derivation .operand}
    {more : Derivation .factors} (hright : ReadBy inner right) (hmore : ReadBy inner more) :
    ReadBy inner (.factor joiner right more) := by
  intro tokens p rest hends hrest
  have hstep := follows_nextFactor inner p
  rw [hrest, Derivation.tokens, List.cons_append, List.append_assoc, nextFactor_joiner,
    hright (more.tokens ++ rest) (ends_operand_of_factors more hends)] at hstep
  obtain ⟨q, hqtree, hqrest, -, hq⟩ := hstep
  rw [hq, hmore q rest hends hqrest, hqtree]
  rfl

theorem readBy_percent {more : Derivation .factors} (hmore : ReadBy inner more) :
    ReadBy inner (.percent more) := by
  intro tokens p rest hends hrest
  have hstep := follows_nextFactor inner p
  rw [hrest, Derivation.tokens, List.cons_append,
    nextFactor_percent (factors_ne_power more hends)] at hstep
  obtain ⟨q, hqtree, hqrest, -, hq⟩ := hstep
  rw [hq, hmore q rest hends hqrest, hqtree]
  rfl

theorem readBy_noAddend : ReadBy inner .noAddend := by
  intro tokens p rest hends hrest
  have hstep := follows_nextAddend inner p
  rw [hrest, Derivation.tokens, List.nil_append, nextAddend_of_ends hends] at hstep
  rw [show outcome (sumTail inner p) = some (p.tree, p.rest) from hstep, hrest]
  rfl

theorem readBy_noFactor : ReadBy inner .noFactor := by
  intro tokens p rest hends hrest
  have hstep := follows_nextFactor inner p
  rw [hrest, Derivation.tokens, List.nil_append, nextFactor_of_ends hends] at hstep
  rw [show outcome (productTail inner p) = some (p.tree, p.rest) from hstep, hrest]
  rfl

/-- The phrases one level deeper read the operand. -/
def ReadBelow (inner : Level) (d : Derivation .operand) : Prop :=
  ∀ rest, Ends .operand rest → outcome (inner.operand (d.tokens ++ rest)) = some (d.tree, rest)

theorem readBelow_level {d : Derivation .operand} {n : Nat} (hn : d.depth + 1 ≤ n)
    (h : ∀ n, d.depth ≤ n → ReadBy (level n) d) : ReadBelow (level n) d := by
  cases n with
  | zero => omega
  | succ n => exact h n (Nat.le_of_succ_le_succ hn)

theorem readBy_percentPower (spelling : PowerSpelling) {exponent : Derivation .operand}
    {more : Derivation .factors} (hexponent : ReadBelow inner exponent)
    (hmore : ReadBy inner more) : ReadBy inner (.percentPower spelling exponent more) := by
  intro tokens p rest hends hrest
  have hstep := follows_nextFactor inner p
  rw [hrest, Derivation.tokens, List.cons_append, List.cons_append, List.append_assoc, nextFactor,
    hexponent (more.tokens ++ rest) (ends_operand_of_factors more hends)] at hstep
  obtain ⟨q, hqtree, hqrest, -, hq⟩ := hstep
  rw [hq, hmore q rest hends hqrest, hqtree]
  rfl

theorem readBy_signed (sign : Sign) {operand : Derivation .operand}
    (hoperand : ReadBelow inner operand) : ReadBy inner (.signed sign operand) := by
  intro rest hends
  have hsign : signOf? sign.token = some sign.unary := by
    cases sign <;> rfl
  rw [Derivation.tokens, List.cons_append, outcome_operand_signed inner _ hsign,
    hoperand rest hends]
  rfl

theorem readBy_unsigned {power : Derivation .power} (hpower : ReadBy inner power) :
    ReadBy inner (.unsigned power) := by
  intro rest hends
  obtain ⟨token, more, htokens, hstart⟩ := exists_tokens_power power
  have hread := hpower rest hends
  have hsign : signOf? token = none := by
    cases token <;> first | rfl | cases hstart
  rw [Derivation.tokens, htokens, List.cons_append, operand_unsigned inner _ hsign,
    ← List.cons_append, ← htokens, hread]
  rfl

theorem readBy_plain {base : Derivation .primary} (hbase : ReadBy inner base) :
    ReadBy inner (.plain base) := by
  intro rest hends
  rw [Derivation.tokens, outcome_power, hbase rest, Option.bind_some,
    raise_of_ne_power (ne_power_of_ends hends)]
  rfl

theorem readBy_raised {base : Derivation .primary} (spelling : PowerSpelling)
    {exponent : Derivation .operand} (hbase : ReadBy inner base)
    (hexponent : ReadBelow inner exponent) : ReadBy inner (.raised base spelling exponent) := by
  intro rest hends
  rw [Derivation.tokens, List.append_assoc, List.cons_append, outcome_power, hbase,
    Option.bind_some, raise, hexponent rest hends]
  rfl

theorem outcome_group_level {d : Derivation .sum} {n : Nat} (hn : d.depth + 1 ≤ n)
    (h : ∀ n, d.depth ≤ n → ReadBy (level n) d) (rest : List Token) :
    outcome (group (level n) (d.tokens ++ .closeParen :: rest)) = some (d.tree, rest) := by
  cases n with
  | zero => omega
  | succ n =>
      have hread := h n (Nat.le_of_succ_le_succ hn) (.closeParen :: rest) (by simp [tightness?])
      obtain ⟨token, more, htokens, hstart⟩ := exists_tokens_sum d
      have hhead : (d.tokens ++ .closeParen :: rest).head? ≠ some .closeParen := by
        rw [htokens, List.cons_append, List.head?_cons]
        rintro ⟨⟩
        cases hstart
      rw [outcome_group, if_neg hhead, show (level (n + 1)).sum = sum (level n) from rfl, hread]
      rfl

theorem readBy_level {c : Nonterminal} (d : Derivation c) :
    ∀ n, d.depth ≤ n → ReadBy (level n) d := by
  induction d with
  | sum first more ihFirst ihMore =>
      intro n hn
      obtain ⟨hfirst, hmore⟩ := Nat.max_le.mp hn
      exact readBy_sum (ihFirst n hfirst) (ihMore n hmore)
  | noAddend => exact fun n _ => readBy_noAddend
  | addend sign right more ihRight ihMore =>
      intro n hn
      obtain ⟨hright, hmore⟩ := Nat.max_le.mp hn
      exact readBy_addend sign (ihRight n hright) (ihMore n hmore)
  | product first more ihFirst ihMore =>
      intro n hn
      obtain ⟨hfirst, hmore⟩ := Nat.max_le.mp hn
      exact readBy_product (ihFirst n hfirst) (ihMore n hmore)
  | noFactor => exact fun n _ => readBy_noFactor
  | factor joiner right more ihRight ihMore =>
      intro n hn
      obtain ⟨hright, hmore⟩ := Nat.max_le.mp hn
      exact readBy_factor joiner (ihRight n hright) (ihMore n hmore)
  | percent more ihMore => exact fun n hn => readBy_percent (ihMore n hn)
  | percentPower spelling exponent more ihExponent ihMore =>
      intro n hn
      obtain ⟨hexponent, hmore⟩ := Nat.max_le.mp hn
      exact readBy_percentPower spelling (readBelow_level hexponent ihExponent) (ihMore n hmore)
  | signed sign operand ih => exact fun n hn => readBy_signed sign (readBelow_level hn ih)
  | unsigned power ih => exact fun n hn => readBy_unsigned (ih n hn)
  | plain base ih => exact fun n hn => readBy_plain (ih n hn)
  | raised base spelling exponent ihBase ihExponent =>
      intro n hn
      obtain ⟨hbase, hexponent⟩ := Nat.max_le.mp hn
      exact readBy_raised spelling (ihBase n hbase) (readBelow_level hexponent ihExponent)
  | number value => exact fun n _ rest => rfl
  | pi => exact fun n _ rest => rfl
  | euler => exact fun n _ rest => rfl
  | group inner ih =>
      intro n hn rest
      rw [Derivation.tokens, List.cons_append, List.append_assoc, List.singleton_append,
        outcome_primary_group, outcome_group_level hn ih]
      rfl
  | call f argument ih =>
      intro n hn rest
      rw [Derivation.tokens, List.cons_append, List.cons_append, List.append_assoc,
        List.singleton_append, outcome_primary_call, outcome_group_level hn ih]
      rfl

end

theorem outcome_sum_level_iff {tokens : List Token} {tree : Tree} {n : Nat} :
    outcome (sum (level n) tokens) = some (tree, []) ↔
      ∃ d : Derivation .sum, d.tokens = tokens ∧ d.depth ≤ n ∧ d.tree = tree := by
  constructor
  · intro h
    obtain ⟨d, hdepth, htree, htokens⟩ := exists_derivation_sum (sound_level n) h
    exact ⟨d, by simpa using htokens.symm, hdepth, htree⟩
  · rintro ⟨d, rfl, hdepth, rfl⟩
    have hread := readBy_level d n hdepth [] (ends_nil .sum)
    rwa [List.append_nil] at hread

theorem parse_eq_ok_iff {tokens : List Token} {tree : Tree} :
    parse tokens = .ok tree ↔
      1 ≤ tokens.length ∧ tokens.length ≤ maxTokens ∧
        ∃ d : Derivation .sum, d.tokens = tokens ∧ d.depth ≤ maxDepth ∧ d.tree = tree := by
  rw [parse_eq_ok_iff_outcome, outcome_sum_level_iff, ← List.length_pos_iff]
  rfl

/-- The expressions are the sequences of up to 1024 tokens with a derivation that is up to 256
levels deep. Their tree is the one that is derived, and they have one derivation only. All else is
a syntax error. -/
theorem parse_accepts_grammar :
    (∀ (tokens : List Token) (tree : Tree),
      parse tokens = .ok tree ↔
        1 ≤ tokens.length ∧ tokens.length ≤ 1024 ∧
          ∃ d : Derivation .sum, d.tokens = tokens ∧ d.depth ≤ 256 ∧ d.tree = tree) ∧
    Function.Injective (@Derivation.tokens .sum) ∧
    ∀ tokens : List Token,
      (∃ tree, parse tokens = .ok tree) ∨
        ∃ fault, parse tokens = .error fault ∧ (Fault.syntactic fault).isSyntax = true := by
  refine ⟨fun tokens tree => parse_eq_ok_iff, fun d d' h => tokens_injective h, ?_⟩
  intro tokens
  cases parse tokens with
  | ok tree => exact Or.inl ⟨tree, rfl⟩
  | error fault => exact Or.inr ⟨fault, rfl, rfl⟩

end PocketCalculator.Proofs.DerivationParsing
