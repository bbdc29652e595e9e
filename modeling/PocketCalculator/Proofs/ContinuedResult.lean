import PocketCalculator.Proofs.DisplayedResult

namespace PocketCalculator.Proofs.ContinuedResult

open PocketCalculator.Calculation
open PocketCalculator.Calculator
open PocketCalculator.Calculator.Session
open PocketCalculator.Decimal
open PocketCalculator.Locale
open PocketCalculator.Proofs.CalculatorDisplay
open PocketCalculator.Proofs.CalculatorRuns
open PocketCalculator.Proofs.Characters
open PocketCalculator.Proofs.DerivationParsing
open PocketCalculator.Proofs.DisplayedResult
open PocketCalculator.Proofs.ExpressionGrammar
open PocketCalculator.Proofs.KeySplitting
open PocketCalculator.Proofs.LexicalGrammar
open PocketCalculator.Proofs.LexicalReading
open PocketCalculator.Proofs.TypedExpression

/-- The operator keys, each with the operator that it writes. -/
def operatorKeys : List (String × BinaryOperator) :=
  [("+", .add), ("-", .subtract), ("×", .multiply), ("÷", .divide), ("*", .multiply),
    ("/", .divide), ("^", .power), ("xʸ", .power), ("Mod", .modulo)]

/-- Presses one key for each character. -/
def typeIn (session : Session) (text : List Char) : Session :=
  session.run (text.map fun c => .input (String.singleton c))

/-- A key that goes on from a result and writes a lexeme. -/
structure Writes (key : String) (spelling : List Char) (token : Token) : Prop where
  isBinaryOperator : (Key.ofText key).isBinaryOperator = true
  apply : ∀ buffer, (Key.ofText key).apply buffer = buffer ++ String.ofList spelling
  mem : ∀ scientific, (spelling, token) ∈ lexemes scientific

/-- The tokens of the binary operators. -/
inductive Joins : Token → BinaryOperator → Prop where
  | sign (sign : Sign) : Joins sign.token sign.binary
  | joiner (joiner : Joiner) : Joins joiner.token joiner.operator
  | power (spelling : PowerSpelling) : Joins (.power spelling) .power

theorem exists_writes {key : String} {op : BinaryOperator} (h : (key, op) ∈ operatorKeys) :
    ∃ spelling token, Writes key spelling token ∧ Joins token op := by
  simp only [operatorKeys, List.mem_cons, Prod.mk.injEq, List.not_mem_nil, or_false] at h
  rcases h with h | h | h | h | h | h | h | h | h
  · obtain ⟨rfl, rfl⟩ := h
    exact ⟨['+'], .plus, ⟨rfl, fun _ => rfl, by decide⟩, .sign .plus⟩
  · obtain ⟨rfl, rfl⟩ := h
    exact ⟨['-'], .minus .ascii, ⟨rfl, fun _ => rfl, by decide⟩, .sign (.minus .ascii)⟩
  · obtain ⟨rfl, rfl⟩ := h
    exact ⟨['×'], .times .sign, ⟨rfl, fun _ => rfl, by decide⟩, .joiner (.times .sign)⟩
  · obtain ⟨rfl, rfl⟩ := h
    exact ⟨['÷'], .divide .sign, ⟨rfl, fun _ => rfl, by decide⟩, .joiner (.divide .sign)⟩
  · obtain ⟨rfl, rfl⟩ := h
    exact ⟨['*'], .times .ascii, ⟨rfl, fun _ => rfl, by decide⟩, .joiner (.times .ascii)⟩
  · obtain ⟨rfl, rfl⟩ := h
    exact ⟨['/'], .divide .ascii, ⟨rfl, fun _ => rfl, by decide⟩, .joiner (.divide .ascii)⟩
  · obtain ⟨rfl, rfl⟩ := h
    exact ⟨['^'], .power .caret, ⟨rfl, fun _ => rfl, by decide⟩, .power .caret⟩
  · obtain ⟨rfl, rfl⟩ := h
    exact ⟨['^'], .power .caret, ⟨rfl, fun _ => rfl, by decide⟩, .power .caret⟩
  · obtain ⟨rfl, rfl⟩ := h
    exact ⟨['M', 'o', 'd'], .modulo, ⟨rfl, fun _ => rfl, by decide⟩, .joiner .modulo⟩

theorem writes_percent : Writes "%" ['%'] .percent :=
  ⟨rfl, fun _ => rfl, by decide⟩

/-- What a result and a literal become with an operator between them. -/
def joined (op : BinaryOperator) (negative : Bool) (x y : Float) : Tree :=
  if op = .power ∧ negative = true then
    .sign .negate (.binary .power (.number x) (.number y))
  else .binary op (treeOf negative x) (.number y)

theorem joined_of_ne {op : BinaryOperator} (h : op ≠ .power) (negative : Bool) (x y : Float) :
    joined op negative x y = .binary op (treeOf negative x) (.number y) :=
  if_neg fun hpower => h hpower.1

/-- A number, perhaps with a minus sign, as an operand. -/
def operandOf (negative : Bool) (value : Float) : Derivation .operand :=
  if negative then .signed (.minus .ascii) (.unsigned (.plain (.number value)))
  else .unsigned (.plain (.number value))

theorem tokens_operandOf (negative : Bool) (numeral : Numeral) :
    (operandOf negative (numeral.toFloat false)).tokens =
      (pieces negative numeral).flatMap Piece.tokens := by
  cases negative <;> rfl

theorem length_tokens_operandOf (negative : Bool) (value : Float) :
    (operandOf negative value).tokens.length ≤ 2 := by
  cases negative
  · exact Nat.le_succ 1
  · exact Nat.le_refl 2

theorem tree_operandOf (negative : Bool) (value : Float) :
    (operandOf negative value).tree = treeOf negative value := by
  cases negative <;> rfl

theorem depth_operandOf (negative : Bool) (value : Float) :
    (operandOf negative value).depth ≤ 1 := by
  cases negative
  · exact Nat.zero_le 1
  · exact Nat.le_refl 1

theorem parse_of_derivation {tokens : List Token} (d : Derivation .sum)
    (htokens : d.tokens = tokens) (hpos : 1 ≤ tokens.length) (hlength : tokens.length ≤ 4)
    (hdepth : d.depth ≤ 2) : parse tokens = .ok d.tree :=
  parse_eq_ok_iff.mpr
    ⟨hpos, hlength.trans (by decide), d, htokens, hdepth.trans (by decide), rfl⟩

theorem parse_joined (negative : Bool) (x y : Float) {token : Token} {op : BinaryOperator}
    (h : Joins token op) :
    parse ((operandOf negative x).tokens ++ [token, .number y]) = .ok (joined op negative x y) := by
  have hlength := length_tokens_operandOf negative x
  have hdepth := depth_operandOf negative x
  cases h with
  | sign sign =>
      rw [parse_of_derivation
        (.sum (.product (operandOf negative x) .noFactor)
          (.addend sign (.product (.unsigned (.plain (.number y))) .noFactor) .noAddend))
        (by simp) (by simp) (by simpa using hlength)
        (by simp only [Derivation.depth]; omega)]
      have hne : sign.binary ≠ .power := by cases sign <;> nofun
      simp only [Derivation.tree, tree_operandOf, joined_of_ne hne]
  | joiner joiner =>
      rw [parse_of_derivation
        (.sum (.product (operandOf negative x)
          (.factor joiner (.unsigned (.plain (.number y))) .noFactor)) .noAddend)
        (by simp) (by simp) (by simpa using hlength)
        (by simp only [Derivation.depth]; omega)]
      have hne : joiner.operator ≠ .power := by cases joiner <;> nofun
      simp only [Derivation.tree, tree_operandOf, joined_of_ne hne]
  | power spelling =>
      -- The exponent belongs to the number, and only then is the sign taken.
      cases negative with
      | false =>
          exact parse_of_derivation
            (.sum (.product (.unsigned (.raised (.number x) spelling
              (.unsigned (.plain (.number y))))) .noFactor) .noAddend)
            rfl (Nat.le_add_left ..) (Nat.le_succ 3) (Nat.le_succ 1)
      | true =>
          exact parse_of_derivation
            (.sum (.product (.signed (.minus .ascii) (.unsigned (.raised (.number x) spelling
              (.unsigned (.plain (.number y)))))) .noFactor) .noAddend)
            rfl (Nat.le_add_left ..) (Nat.le_refl 4) (Nat.le_refl 2)

theorem parse_percent (negative : Bool) (x : Float) :
    parse ((operandOf negative x).tokens ++ [.percent]) = .ok (.percent (treeOf negative x)) := by
  have hlength := length_tokens_operandOf negative x
  have hdepth := depth_operandOf negative x
  rw [parse_of_derivation
    (.sum (.product (operandOf negative x) (.percent .noFactor)) .noAddend)
    (by simp) (by simp) (by simp; omega) (by simp only [Derivation.depth]; omega)]
  simp only [Derivation.tree, tree_operandOf]

theorem compile_of_splits {engine : Engine} {text : List Char} {pieces : List Piece} {tree : Tree}
    (hsplits : Splits engine.scientific text pieces)
    (hparse : parse (pieces.flatMap Piece.tokens) = .ok tree) :
    engine.compile (String.ofList text) = .ok tree := by
  refine compile_eq_ok_iff.mpr ⟨_, tokenize_eq_ok_iff.mpr ⟨pieces, ?_, rfl⟩, hparse⟩
  rwa [String.toList_ofList]

theorem splits_behind {scientific negative : Bool} {x : Numeral} {spelling rest : List Char}
    {token : Token} {more : List Piece} (hx : IsLiteral x)
    (hmem : (spelling, token) ∈ lexemes scientific)
    (hends : (Piece.fixed spelling token).EndsAt rest) (hrest : Splits scientific rest more) :
    Splits scientific (signed negative x.text ++ (spelling ++ rest))
      (pieces negative x ++ .fixed spelling token :: more) := by
  have hlexeme : Splits scientific (spelling ++ rest) (.fixed spelling token :: more) :=
    splits_cons.mpr ⟨rest, rfl, hmem, hends, hrest⟩
  have hliteral : Splits scientific (x.text ++ (spelling ++ rest))
      (.literal x :: .fixed spelling token :: more) := by
    refine splits_cons.mpr ⟨spelling ++ rest, rfl, hx, ?_, hlexeme⟩
    rw [hlexeme.endsAt_iff]
    rintro next ⟨⟩
    trivial
  cases negative with
  | false => exact hliteral
  | true =>
      refine splits_cons.mpr ⟨x.text ++ (spelling ++ rest), rfl, ?_, ?_, hliteral⟩
      · exact (by decide : (['-'], Token.minus .ascii) ∈ symbols) |> List.mem_append_left _
      · trivial

theorem splits_literal {scientific : Bool} {y : Numeral} (hy : IsLiteral y) :
    Splits scientific y.text [.literal y] := by
  refine splits_cons.mpr ⟨[], List.append_nil _, hy, ?_, splits_nil.mpr rfl⟩
  rintro c ⟨⟩

theorem endsAt_literal {spelling : List Char} {token : Token} {y : Numeral} (hy : IsLiteral y) :
    (Piece.fixed spelling token).EndsAt y.text := by
  obtain ⟨c, rest, htext, hc⟩ := hy.exists_text
  unfold Piece.EndsAt
  split
  · trivial
  · rw [htext]
    rintro ⟨⟩
    rcases hc with hc | hc
    · cases hc
    · cases hc
  · trivial

theorem compile_joined (engine : Engine) (negative : Bool) {x y : Numeral} {spelling : List Char}
    {token : Token} {op : BinaryOperator} (hx : IsLiteral x) (hy : IsLiteral y)
    (hmem : (spelling, token) ∈ lexemes engine.scientific) (hjoins : Joins token op) :
    engine.compile (String.ofList (signed negative x.text ++ (spelling ++ y.text))) =
      .ok (joined op negative (x.toFloat false) (y.toFloat false)) := by
  refine compile_of_splits
    (splits_behind hx hmem (endsAt_literal hy) (splits_literal hy)) ?_
  rw [List.flatMap_append, ← tokens_operandOf]
  exact parse_joined negative _ _ hjoins

theorem compile_percent (engine : Engine) (negative : Bool) {x : Numeral} (hx : IsLiteral x) :
    engine.compile (String.ofList (signed negative x.text ++ ['%'])) =
      .ok (.percent (treeOf negative (x.toFloat false))) := by
  have hsplits : Splits engine.scientific (signed negative x.text ++ (['%'] ++ []))
      (pieces negative x ++ [.fixed ['%'] .percent]) :=
    splits_behind hx (writes_percent.mem _) trivial (splits_nil.mpr rfl)
  refine compile_of_splits hsplits ?_
  rw [List.flatMap_append, ← tokens_operandOf]
  exact parse_percent negative _

theorem delocalizeChar_of_isDigit {c : Char} (h : c.isDigit) : delocalizeChar c = c := by
  have hdigits : ∀ n < 58, 48 ≤ n → delocalizeChar (Char.ofNat n) = Char.ofNat n := by
    decide
  obtain ⟨hlow, hhigh⟩ := isDigit_iff.mp h
  have hsame := hdigits c.toNat (Nat.lt_succ_of_le hhigh) hlow
  rwa [Char.ofNat_toNat] at hsame

theorem apply_singleton {c : Char} (h : c.isDigit ∨ c = '.') (buffer : String) :
    (Key.ofText (String.singleton c)).apply buffer = buffer ++ String.ofList [c] := by
  have hsame : delocalizeChar c = c := by
    rcases h with h | rfl
    · exact delocalizeChar_of_isDigit h
    · decide
  have happends : Appends (String.singleton c) [delocalizeChar c] := by
    apply appends_singleton
    · rintro rfl
      revert h
      decide
    · rintro rfl
      revert h
      decide
  rw [happends.apply, hsame]

/-- A calculator that is being typed into. -/
structure Holds (engine : Engine) (buffer : String) (session : Session) : Prop where
  mode : session.mode = .idle
  engine_eq : session.engine = engine
  expression : session.expression = buffer

theorem Holds.typeIn {engine : Engine} {buffer : String} {session : Session} {text : List Char}
    (h : Holds engine buffer session) (htext : ∀ c ∈ text, c.isDigit ∨ c = '.') :
    Holds engine (buffer ++ String.ofList text) (typeIn session text) := by
  induction text generalizing session buffer with
  | nil => simpa [ContinuedResult.typeIn, run] using h
  | cons c text ih =>
      have hc := htext c List.mem_cons_self
      have htyped : Holds engine (buffer ++ String.ofList [c])
          (session.input (String.singleton c)) := by
        obtain ⟨hmode, hengine, hexpression⟩ := h
        constructor
        · simpa [input] using resume_mode _
        · simpa [input] using hengine
        · simp [input, resume, hmode, apply_singleton hc, hexpression]
      have hmore := ih htyped fun d hd => htext d (List.mem_cons_of_mem c hd)
      rwa [String.append_assoc, ← String.ofList_append] at hmore

theorem Writes.input {key : String} {spelling : List Char} {token : Token} {session : Session}
    (h : Writes key spelling token) (hmode : session.mode = .showingResult) :
    Holds session.engine (session.result ++ String.ofList spelling) (session.input key) := by
  constructor
  · simpa [Session.input] using resume_mode _
  · simp [Session.input]
  · simp [Session.input, resume, hmode, h.isBinaryOperator, h.apply]

theorem exists_result_eq {engine : Engine} {text result : String}
    (h : engine.evaluate text = .ok result) :
    ∃ negative x, IsLiteral x ∧ result = String.ofList (signed negative x.text) := by
  obtain ⟨value, hraw, rfl⟩ := evaluate_eq_ok_iff.mp h
  obtain ⟨x, hx, -, -, hformat⟩ := exists_numeral (lt_infinite_of_evaluateRaw hraw)
  exact ⟨_, x, hx, hformat⟩

/-- After a result that is a numeral, perhaps with a minus sign, an operator key and a literal make
an expression whose left operand is the whole result and whose right operand is the literal. Only a
power of a negative result is the opposite of the power without the sign. A percent sign applies to
the whole result. Every result that a run comes to show is such a numeral. -/
theorem input_from_result :
    (∀ (session : Session) (negative : Bool) (x : Numeral), session.mode = .showingResult →
      IsLiteral x → session.result = String.ofList (signed negative x.text) →
        ∃ r, session.engine.compile session.result = .ok r ∧
          (∀ key op y, (key, op) ∈ operatorKeys → IsLiteral y →
            session.engine.compile (typeIn (session.input key) y.text).expression =
              .ok (if op = .power ∧ negative = true then
                  .sign .negate
                    (.binary .power (.number (x.toFloat false)) (.number (y.toFloat false)))
                else .binary op r (.number (y.toFloat false)))) ∧
          session.engine.compile (session.input "%").expression = .ok (.percent r)) ∧
      ∀ (settings : Settings) (actions : List Action),
        let session :=
          (Session.start settings.engine settings.historyCapacity settings.language).run actions
        session.mode = .showingResult →
          ∃ negative x, IsLiteral x ∧ session.result = String.ofList (signed negative x.text) := by
  constructor
  · intro session negative x hmode hx hresult
    have hcompile := compile_signed session.engine negative hx
    refine ⟨treeOf negative (x.toFloat false), by rw [hresult, hcompile], ?_, ?_⟩
    · intro key op y hkey hy
      obtain ⟨spelling, token, hwrites, hjoins⟩ := exists_writes hkey
      have htyped := (hwrites.input hmode).typeIn fun c => IsLiteral.of_mem_text hy
      rw [htyped.expression, hresult, ← String.ofList_append, ← String.ofList_append,
        List.append_assoc, compile_joined _ _ hx hy (hwrites.mem _) hjoins]
      rfl
    · rw [(writes_percent.input hmode).expression, hresult, ← String.ofList_append,
        compile_percent _ _ hx]
  · intro settings actions session hmode
    have hcoherent : Coherent session := coherent_run _ _ _ actions
    rw [Coherent, hmode] at hcoherent
    obtain ⟨evaluated, hvalue, -⟩ := hcoherent.result
    exact exists_result_eq hvalue

/-- A calculator that shows minus three. -/
def showingMinusThree : Session :=
  (Session.start {} 50 .english).run [.input "0", .input "-", .input "3", .calculate 0]

theorem showingMinusThree_eq :
    showingMinusThree.mode = .showingResult ∧
      showingMinusThree.result = String.ofList (signed true ['3']) := by
  decide +kernel

theorem isLiteral_three : IsLiteral ⟨['3'], false, []⟩ :=
  ⟨List.forall_mem_singleton.mpr rfl, nofun, fun _ => rfl, rfl⟩

theorem input_from_result_product :
    showingMinusThree.mode = .showingResult ∧
      showingMinusThree.result = String.ofList (signed true ['3']) ∧
      ∃ r, showingMinusThree.engine.compile showingMinusThree.result = .ok r ∧
        showingMinusThree.engine.compile
            (typeIn (showingMinusThree.input "×") ['2', '.', '5']).expression =
          .ok (.binary .multiply r (.number ((⟨['2'], true, ['5']⟩ : Numeral).toFloat false))) := by
  obtain ⟨hmode, hresult⟩ := showingMinusThree_eq
  have hy : IsLiteral ⟨['2'], true, ['5']⟩ :=
    ⟨List.forall_mem_singleton.mpr rfl, List.forall_mem_singleton.mpr rfl, nofun, rfl⟩
  obtain ⟨r, hr, hoperator, -⟩ := input_from_result.1 showingMinusThree true _ hmode
    isLiteral_three hresult
  have hproduct := hoperator "×" .multiply _ (by decide) hy
  rw [if_neg (by decide)] at hproduct
  exact ⟨hmode, hresult, r, hr, hproduct⟩

/-- Minus three to the power two is read as the opposite of the power. -/
theorem input_power_from_negative_result :
    showingMinusThree.mode = .showingResult ∧
      showingMinusThree.result = "-3" ∧
      showingMinusThree.engine.compile "-3" = .ok (.sign .negate (.number 3)) ∧
      (typeIn (showingMinusThree.input "xʸ") ['2']).expression = "-3^2" ∧
      showingMinusThree.engine.compile "-3^2" =
          .ok (.sign .negate (.binary .power (.number 3) (.number 2))) ∧
      showingMinusThree.engine.compile "-3^2" ≠
          .ok (.binary .power (.sign .negate (.number 3)) (.number 2)) := by
  refine ⟨?_, ?_, ?_, ?_, ?_, ?_⟩ <;> decide +kernel

end PocketCalculator.Proofs.ContinuedResult
