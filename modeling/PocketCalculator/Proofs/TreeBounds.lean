import PocketCalculator.Proofs.DerivationParsing

/-!
How large trees get. Evaluation recurses through a tree, so the height of the tree is what the stack
has to hold. Every token pays for what it adds to a tree. Only a percent sign can add two nodes: with
an exponent after it, it brings in a division and the hundred, and the hundred has no token.
-/

namespace PocketCalculator.Proofs.TreeBounds

open PocketCalculator.Calculation
open PocketCalculator.Proofs.ExpressionGrammar
open PocketCalculator.Proofs.DerivationParsing

/-- The number of nodes on the longest way down a tree. -/
def height : Tree → Nat
  | .number _ => 1
  | .sign _ operand => height operand + 1
  | .binary _ left right => max (height left) (height right) + 1
  | .percent operand => height operand + 1
  | .call _ argument => height argument + 1

theorem height_pos (tree : Tree) : 0 < height tree := by
  cases tree <;> exact Nat.succ_pos _

def nodes : Tree → Nat
  | .number _ => 1
  | .sign _ operand => nodes operand + 1
  | .binary _ left right => nodes left + nodes right + 1
  | .percent operand => nodes operand + 1
  | .call _ argument => nodes argument + 1

/-- The value of a tree if no more than the given number of calls are ever open at once, each of
them for a node below the one before. -/
def evalWithin (angle : AngleUnit) : Nat → Tree → Option Float
  | 0, _ => none
  | _ + 1, .number value => some value
  | calls + 1, .sign op operand => (evalWithin angle calls operand).map op.apply
  | calls + 1, .binary op left right =>
    (evalWithin angle calls left).bind fun x => (evalWithin angle calls right).map (op.apply x)
  | calls + 1, .percent operand => (evalWithin angle calls operand).map (· / 100)
  | calls + 1, .call f argument => (evalWithin angle calls argument).map (f.apply angle)

/-- A tree needs as many open calls as it is high, and comes to its value with them. -/
theorem evalWithin_eq (angle : AngleUnit) (calls : Nat) (tree : Tree) :
    evalWithin angle calls tree =
      if height tree ≤ calls then some (tree.eval angle) else none := by
  induction calls generalizing tree with
  | zero => rw [evalWithin, if_neg (Nat.not_le.mpr (height_pos tree))]
  | succ calls ih =>
      cases tree with
      | number value => rw [evalWithin, height, if_pos (Nat.le_add_left 1 calls), Tree.eval]
      | sign op operand =>
          simp only [evalWithin, height, Tree.eval, ih, Option.map_if, Nat.add_le_add_iff_right]
      | binary op left right =>
          simp only [evalWithin, height, Tree.eval, ih, Option.map_if, Nat.add_le_add_iff_right,
            Nat.max_le]
          by_cases hleft : height left ≤ calls <;> simp [hleft]
      | percent operand =>
          simp only [evalWithin, height, Tree.eval, ih, Option.map_if, Nat.add_le_add_iff_right]
      | call f argument =>
          simp only [evalWithin, height, Tree.eval, ih, Option.map_if, Nat.add_le_add_iff_right]

def total (price : Token → Nat) : List Token → Nat
  | [] => 0
  | token :: tokens => price token + total price tokens

theorem total_append (price : Token → Nat) (tokens tokens' : List Token) :
    total price (tokens ++ tokens') = total price tokens + total price tokens' := by
  induction tokens with
  | nil => exact (Nat.zero_add _).symm
  | cons token tokens ih => rw [List.cons_append, total, total, ih, Nat.add_assoc]

/-- A node adds at most one to the measure of the trees below it. Where a percent sign brings in a
hundred, it pays with the power sign after it for the three nodes that they add. -/
structure Affords (price : Token → Nat) (measure : Tree → Nat) : Prop where
  one_le_price : ∀ token, 1 ≤ price token
  number : ∀ value, measure (.number value) ≤ 1
  sign : ∀ op operand, measure (.sign op operand) ≤ measure operand + 1
  binary : ∀ op left right, measure (.binary op left right) ≤ measure left + measure right + 1
  percent : ∀ operand, measure (.percent operand) ≤ measure operand + 1
  hundred : ∀ left exponent,
    measure (.binary .divide left (.binary .power (.number 100) exponent)) ≤
      measure left + measure exponent + (price .percent + 1)
  call : ∀ f argument, measure (.call f argument) ≤ measure argument + 1

/-- What a phrase stands for measures no more than was paid. Addends and factors have paid for what
they add to the tree on their left. -/
def Covers (measure : Tree → Nat) (paid : Nat) : (c : Nonterminal) → c.Meaning → Prop
  | .addends, grow | .factors, grow => ∀ left, measure (grow left) ≤ measure left + paid
  | .sum, tree | .product, tree | .operand, tree | .power, tree | .primary, tree =>
    measure tree ≤ paid

section

variable {price : Token → Nat} {measure : Tree → Nat}

theorem Affords.joined (h : Affords price measure) (op : BinaryOperator) (token : Token)
    (left : Tree) {right : Tree} {paid : Nat} (hright : measure right ≤ paid) :
    measure (.binary op left right) ≤ measure left + (price token + paid) := by
  have hbinary := h.binary op left right
  have hprice := h.one_le_price token
  omega

theorem Affords.joined_onward (h : Affords price measure) (op : BinaryOperator) (token : Token)
    (left : Tree) {right : Tree} {grow : Tree → Tree} {tokens later : List Token}
    (hright : measure right ≤ total price tokens)
    (hgrow : ∀ tree, measure (grow tree) ≤ measure tree + total price later) :
    measure (grow (.binary op left right)) ≤
      measure left + total price (token :: (tokens ++ later)) :=
  calc measure (grow (.binary op left right))
    _ ≤ measure (.binary op left right) + total price later := hgrow _
    _ ≤ measure left + (price token + total price tokens) + total price later :=
      Nat.add_le_add_right (h.joined op token left hright) _
    _ = measure left + total price (token :: (tokens ++ later)) := by
      rw [total, total_append, Nat.add_assoc, Nat.add_assoc]

/-- The tokens of a phrase pay for the tree that is derived. -/
theorem Affords.covers (h : Affords price measure) {c : Nonterminal} (d : Derivation c) :
    Covers measure (total price d.tokens) c d.tree := by
  induction d with
  | sum first more ihfirst ihmore | product first more ihfirst ihmore =>
      calc measure (more.tree first.tree)
        _ ≤ measure first.tree + total price more.tokens := ihmore _
        _ ≤ total price first.tokens + total price more.tokens := Nat.add_le_add_right ihfirst _
        _ = total price (first.tokens ++ more.tokens) := (total_append price _ _).symm
  | noAddend | noFactor => exact fun left => Nat.le_refl _
  | addend sign right more ihright ihmore =>
      exact fun left => h.joined_onward sign.binary sign.token left ihright ihmore
  | factor joiner right more ihright ihmore =>
      exact fun left => h.joined_onward joiner.operator joiner.token left ihright ihmore
  | percent more ihmore =>
      intro left
      have hpercent := h.percent left
      have hprice := h.one_le_price .percent
      calc measure (more.tree (.percent left))
        _ ≤ measure (.percent left) + total price more.tokens := ihmore _
        _ ≤ measure left + (price .percent + total price more.tokens) := by omega
        _ = measure left + total price (.percent :: more.tokens) := by rw [total]
  | percentPower spelling exponent more ihexponent ihmore =>
      intro left
      have hexponent : measure exponent.tree ≤ total price exponent.tokens := ihexponent
      have hhundred := h.hundred left exponent.tree
      have hprice := h.one_le_price (.power spelling)
      calc measure (more.tree (.binary .divide left (.binary .power (.number 100) exponent.tree)))
        _ ≤ measure (.binary .divide left (.binary .power (.number 100) exponent.tree)) +
            total price more.tokens := ihmore _
        _ ≤ measure left + (price .percent + (price (.power spelling) +
            (total price exponent.tokens + total price more.tokens))) := by omega
        _ = measure left +
            total price (.percent :: .power spelling :: (exponent.tokens ++ more.tokens)) := by
          rw [total, total, total_append]
  | signed sign operand ih =>
      calc measure (.sign sign.unary operand.tree)
        _ ≤ measure operand.tree + 1 := h.sign _ _
        _ ≤ total price operand.tokens + price sign.token :=
          Nat.add_le_add ih (h.one_le_price _)
        _ = total price (sign.token :: operand.tokens) := by rw [total, Nat.add_comm]
  | unsigned power ih => exact ih
  | plain base ih => exact ih
  | raised base spelling exponent ihbase ihexponent =>
      calc measure (.binary .power base.tree exponent.tree)
        _ ≤ measure base.tree + (price (.power spelling) + total price exponent.tokens) :=
          h.joined .power (.power spelling) base.tree ihexponent
        _ ≤ total price base.tokens + (price (.power spelling) + total price exponent.tokens) :=
          Nat.add_le_add_right ihbase _
        _ = total price (base.tokens ++ .power spelling :: exponent.tokens) := by
          rw [total_append, total]
  | number value | pi | euler => exact Nat.le_trans (h.number _) (h.one_le_price _)
  | group inner ih =>
      calc measure inner.tree
        _ ≤ total price inner.tokens := ih
        _ ≤ total price (.openParen :: (inner.tokens ++ [.closeParen])) := by
          rw [total, total_append]
          omega
  | call f argument ih =>
      have hprice := h.one_le_price (.function f)
      calc measure (.call f argument.tree)
        _ ≤ measure argument.tree + 1 := h.call _ _
        _ ≤ total price argument.tokens + 1 := Nat.add_le_add_right ih 1
        _ ≤ total price (.function f :: .openParen :: (argument.tokens ++ [.closeParen])) := by
          rw [total, total, total_append]
          omega

theorem Affords.measure_le_of_parse (h : Affords price measure) {tokens : List Token}
    {tree : Tree} (hread : parse tokens = .ok tree) : measure tree ≤ total price tokens := by
  obtain ⟨-, -, d, rfl, -, rfl⟩ := parse_eq_ok_iff.mp hread
  exact h.covers d

end

theorem affords_height : Affords (fun _ => 1) height where
  one_le_price token := Nat.le_refl 1
  number value := Nat.le_refl 1
  sign op operand := Nat.le_refl _
  binary op left right := by
    simp only [height]
    omega
  percent operand := Nat.le_refl _
  hundred left exponent := by
    have hleft := height_pos left
    have hexponent := height_pos exponent
    simp only [height]
    omega
  call f argument := Nat.le_refl _

/-- A percent sign pays for the hundred too. -/
def nodePrice (token : Token) : Nat :=
  if token = .percent then 2 else 1

theorem affords_nodes : Affords nodePrice nodes where
  one_le_price token := by
    unfold nodePrice
    split <;> decide
  number value := Nat.le_refl 1
  sign op operand := Nat.le_refl _
  binary op left right := Nat.le_refl _
  percent operand := Nat.le_refl _
  hundred left exponent := by
    rw [nodePrice, if_pos rfl]
    simp only [nodes]
    omega
  call f argument := Nat.le_refl _

theorem total_one (tokens : List Token) : total (fun _ => 1) tokens = tokens.length := by
  induction tokens with
  | nil => rfl
  | cons token tokens ih => rw [total, ih, List.length_cons, Nat.add_comm]

theorem total_nodePrice (tokens : List Token) :
    total nodePrice tokens = tokens.length + tokens.count .percent := by
  induction tokens with
  | nil => rfl
  | cons token tokens ih =>
      rw [total, ih, List.length_cons, List.count_cons, nodePrice]
      by_cases hpercent : token = .percent
      · simp [hpercent]
        omega
      · simp [hpercent]
        omega

section

variable {tokens : List Token} {tree : Tree}

theorem height_le_length (h : parse tokens = .ok tree) : height tree ≤ tokens.length :=
  total_one tokens ▸ affords_height.measure_le_of_parse h

theorem nodes_le (h : parse tokens = .ok tree) :
    nodes tree ≤ tokens.length + tokens.count .percent :=
  total_nodePrice tokens ▸ affords_nodes.measure_le_of_parse h

/-- The tree of an expression is no higher than the expression is long, and has at most one node for
each token and one more for each percent sign. So evaluation never has more calls open at once than
there are tokens, of which there are at most 1024. -/
theorem parsed_tree_bounded (h : parse tokens = .ok tree) :
    height tree ≤ tokens.length ∧ height tree ≤ 1024 ∧
      nodes tree ≤ tokens.length + tokens.count .percent ∧
        ∀ angle, evalWithin angle tokens.length tree = some (tree.eval angle) ∧
          evalWithin angle 1024 tree = some (tree.eval angle) := by
  have hlength := height_le_length h
  have hlimit : height tree ≤ 1024 := Nat.le_trans hlength (parse_eq_ok_iff.mp h).2.1
  refine ⟨hlength, hlimit, nodes_le h, fun angle => ⟨?_, ?_⟩⟩
  · rw [evalWithin_eq, if_pos hlength]
  · rw [evalWithin_eq, if_pos hlimit]

end

/-- `-3%^2`, in which the tree has as many nodes as it may. -/
def raisedPercent : Derivation .sum :=
  .sum (.product (.signed (.minus .ascii) (.unsigned (.plain (.number 3))))
    (.percentPower .caret (.unsigned (.plain (.number 2))) .noFactor)) .noAddend

theorem parsed_tree_bounded_raisedPercent :
    let tokens := [.minus .ascii, .number 3, .percent, .power .caret, .number 2]
    let tree : Tree := .binary .divide (.sign .negate (.number 3))
      (.binary .power (.number 100) (.number 2))
    parse tokens = .ok tree ∧ nodes tree = tokens.length + tokens.count .percent ∧
      height tree ≤ tokens.length ∧ height tree ≤ 1024 ∧
        nodes tree ≤ tokens.length + tokens.count .percent ∧
          ∀ angle, evalWithin angle tokens.length tree = some (tree.eval angle) ∧
            evalWithin angle 1024 tree = some (tree.eval angle) := by
  have hread : parse raisedPercent.tokens = .ok raisedPercent.tree :=
    parse_eq_ok_iff.mpr ⟨by decide, by decide, raisedPercent, rfl, by decide, rfl⟩
  exact ⟨hread, by simp [nodes], parsed_tree_bounded hread⟩

/-- So many percent signs in a row. -/
def percents : Nat → Derivation .factors
  | 0 => .noFactor
  | n + 1 => .percent (percents n)

theorem length_percents (n : Nat) : (percents n).tokens.length = n := by
  induction n with
  | zero => rfl
  | succ n ih => rw [percents, Derivation.tokens, List.length_cons, ih]

theorem depth_percents (n : Nat) : (percents n).depth = 0 := by
  induction n with
  | zero => rfl
  | succ n ih => rw [percents, Derivation.depth, ih]

theorem height_percents (n : Nat) (left : Tree) :
    height ((percents n).tree left) = height left + n := by
  induction n generalizing left with
  | zero => rfl
  | succ n ih =>
      calc height ((percents n).tree (.percent left))
        _ = height left + 1 + n := ih (.percent left)
        _ = height left + (n + 1) := by rw [Nat.add_assoc, Nat.add_comm 1 n]

/-- Fewer calls are too few for some expression, which has one token more than there are calls. -/
theorem exists_evalWithin_eq_none {calls : Nat} (h : calls < 1024) :
    ∃ tokens tree, tokens.length = calls + 1 ∧ parse tokens = .ok tree ∧
      ∀ angle, evalWithin angle calls tree = none := by
  let d : Derivation .sum :=
    .sum (.product (.unsigned (.plain (.number 1))) (percents calls)) .noAddend
  have hlength : d.tokens.length = calls + 1 := by
    simp [d, length_percents]
  have hdepth : d.depth ≤ 256 := by
    simp [d, Derivation.depth, depth_percents]
  have hheight : height d.tree = 1 + calls := height_percents calls (.number 1)
  have hread : parse d.tokens = .ok d.tree :=
    parse_eq_ok_iff.mpr ⟨hlength ▸ Nat.le_add_left 1 calls, hlength ▸ h, d, rfl, hdepth, rfl⟩
  refine ⟨d.tokens, d.tree, hlength, hread, fun angle => ?_⟩
  rw [evalWithin_eq, hheight, if_neg (by omega)]

end PocketCalculator.Proofs.TreeBounds
