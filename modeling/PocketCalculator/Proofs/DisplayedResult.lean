import PocketCalculator.Proofs.CalculatorDisplay
import PocketCalculator.Proofs.CalculatorHistory
import PocketCalculator.Proofs.RepeatedRounding
import PocketCalculator.Proofs.ShortestDecimal
import PocketCalculator.Proofs.TypedExpression

namespace PocketCalculator.Proofs.DisplayedResult

open PocketCalculator.Binary64
open PocketCalculator.Calculation
open PocketCalculator.Calculator
open PocketCalculator.Calculator.Session
open PocketCalculator.Decimal
open PocketCalculator.Locale (Language)
open PocketCalculator.Proofs.CalculatorDisplay (endsComplete_iff)
open PocketCalculator.Proofs.CalculatorHistory
open PocketCalculator.Proofs.CalculatorRuns
open PocketCalculator.Proofs.DerivationParsing
open PocketCalculator.Proofs.ExpressionGrammar
open PocketCalculator.Proofs.FloatArithmetic
open PocketCalculator.Proofs.LexicalGrammar
open PocketCalculator.Proofs.LexicalReading
open PocketCalculator.Proofs.NearestMagnitude
open PocketCalculator.Proofs.RepeatedRounding
open PocketCalculator.Proofs.ResultRounding
open PocketCalculator.Proofs.ShortestDecimal
open PocketCalculator.Proofs.TypedExpression

/-- A numeral, perhaps after a minus sign. -/
def pieces (negative : Bool) (numeral : Numeral) : List Piece :=
  if negative then [.fixed ['-'] (.minus .ascii), .literal numeral] else [.literal numeral]

def treeOf (negative : Bool) (value : Float) : Tree :=
  if negative then .sign .negate (.number value) else .number value

theorem splits_pieces (scientific negative : Bool) {numeral : Numeral} (h : IsLiteral numeral) :
    Splits scientific (signed negative numeral.text) (pieces negative numeral) := by
  cases negative
  · refine ⟨?_, by simp [pieces], by simp [pieces, Piece.text, signed]⟩
    simpa [pieces, Piece.Valid] using h
  · refine ⟨?_, by simp [pieces, Piece.Before], by simp [pieces, Piece.text, signed]⟩
    simp [pieces, Piece.Valid, h, lexemes, symbols]

theorem parse_number (value : Float) : parse [.number value] = .ok (.number value) :=
  parse_eq_ok_iff.mpr ⟨Nat.le_refl 1, (by decide : 1 ≤ maxTokens),
    .sum (.product (.unsigned (.plain (.number value))) .noFactor) .noAddend,
    rfl, Nat.zero_le _, rfl⟩

theorem parse_negated_number (value : Float) :
    parse [.minus .ascii, .number value] = .ok (.sign .negate (.number value)) :=
  parse_eq_ok_iff.mpr ⟨(by decide : 1 ≤ 2), (by decide : 2 ≤ maxTokens),
    .sum (.product (.signed (.minus .ascii) (.unsigned (.plain (.number value)))) .noFactor)
      .noAddend,
    rfl, (by decide : 1 ≤ maxDepth), rfl⟩

theorem parse_pieces (negative : Bool) (numeral : Numeral) :
    parse ((pieces negative numeral).flatMap Piece.tokens) =
      .ok (treeOf negative (numeral.toFloat false)) := by
  cases negative
  · exact parse_number _
  · exact parse_negated_number _

theorem compile_signed (engine : Engine) (negative : Bool) {numeral : Numeral}
    (h : IsLiteral numeral) :
    engine.compile (String.ofList (signed negative numeral.text)) =
      .ok (treeOf negative (numeral.toFloat false)) := by
  refine compile_eq_ok_iff.mpr
    ⟨_, tokenize_eq_ok_iff.mpr ⟨_, ?_, rfl⟩, parse_pieces negative numeral⟩
  rw [String.toList_ofList]
  exact splits_pieces _ negative h

theorem eval_treeOf (angle : AngleUnit) (negative : Bool) {b : Nat} (hb : b < infinite) :
    (treeOf negative (ofMagnitude false b)).eval angle = ofMagnitude negative b := by
  cases negative
  · rfl
  · change -ofMagnitude false b = _
    rw [neg_eq (magnitude_ofMagnitude_lt _ hb), isNegative_ofMagnitude _ hb.le,
      magnitude_ofMagnitude _ hb.le]
    rfl

theorem finite_eq_ok_iff {x y : Float} :
    Engine.finite x = .ok y ↔ x = y ∧ magnitude x < infinite := by
  rw [Engine.finite]
  by_cases hnan : x.isNaN = true
  · rw [if_pos hnan]
    refine iff_of_false (fun h => by cases h) fun h => ?_
    exact Nat.lt_asymm h.2 (isNaN_iff.mp hnan)
  rw [if_neg hnan]
  by_cases hinf : x.isInf = true
  · rw [if_pos hinf]
    exact iff_of_false (fun h => by cases h) fun h => h.2.ne (isInf_iff.mp hinf)
  · rw [if_neg hinf, Except.ok.injEq]
    rw [isNaN_iff] at hnan
    rw [isInf_iff] at hinf
    exact ⟨fun h => ⟨h, by omega⟩, And.left⟩

theorem evaluateRaw_signed (engine : Engine) (negative : Bool) {numeral : Numeral} {b : Nat}
    (h : IsLiteral numeral) (hb : b < infinite)
    (hvalue : numeral.toFloat false = ofMagnitude false b) :
    engine.evaluateRaw (String.ofList (signed negative numeral.text)) =
      .ok (ofMagnitude negative b) := by
  rw [Engine.evaluateRaw, compile_signed engine negative h, hvalue]
  change Engine.finite ((treeOf negative (ofMagnitude false b)).eval engine.angleUnit) = _
  rw [eval_treeOf _ negative hb]
  exact finite_eq_ok_iff.mpr ⟨rfl, magnitude_ofMagnitude_lt _ hb⟩

/-- Whether a result has a minus sign. A rounded zero has none. -/
def showsSign (value : Float) : Bool :=
  isNegative value && rounded (magnitude value) != 0

/-- The float that a result stands for. -/
def displayed (value : Float) : Float :=
  ofMagnitude (showsSign value) (rounded (magnitude value))

theorem magnitude_displayed {value : Float} (h : magnitude value < infinite) :
    magnitude (displayed value) = rounded (magnitude value) :=
  magnitude_ofMagnitude _ (rounded_lt_infinite h).le

theorem isNegative_displayed {value : Float} (h : magnitude value < infinite) :
    isNegative (displayed value) = showsSign value :=
  isNegative_ofMagnitude _ (rounded_lt_infinite h).le

theorem plain_eq {x : Float} (h : magnitude x < infinite) (hne : magnitude x ≠ 0) :
    plain x = signed (isNegative x) (shortest (magnitude x)).text := by
  have hunits : units x ≠ 0 := mt unitsOf_eq_zero_iff.mp hne
  rw [plain, if_neg (mt isNaN_iff.mp (Nat.not_lt.mpr h.le)), if_neg (mt isInf_iff.mp h.ne),
    if_neg hunits]

theorem formatResult_eq {value : Float} (h : magnitude value < infinite) :
    formatResult value =
      if rounded (magnitude value) = 0 then "0"
      else
        String.ofList (signed (isNegative value) (shortest (rounded (magnitude value))).text) := by
  have hrounded := rounded_lt_infinite h
  have hround := roundDecimals_eq h
  have hmagnitude : magnitude (roundDecimals value resultDecimals) = rounded (magnitude value) := by
    rw [hround, magnitude_ofMagnitude _ hrounded.le]
  have hzero : (roundDecimals value resultDecimals == 0) = true ↔
      rounded (magnitude value) = 0 := by
    rw [beq_zero_iff (by rwa [hmagnitude]), hmagnitude]
  simp only [formatResult]
  by_cases hne : rounded (magnitude value) = 0
  · rw [if_pos (hzero.mpr hne), if_pos hne]
  · rw [if_neg (mt hzero.mp hne), if_neg hne, plain_eq (by rwa [hmagnitude]) (by rwa [hmagnitude]),
      hmagnitude, hround, isNegative_ofMagnitude _ hrounded.le]

theorem exists_numeral {value : Float} (h : magnitude value < infinite) :
    ∃ numeral, IsLiteral numeral ∧ (∃ start c, numeral.text = start ++ [c] ∧ c.isDigit) ∧
      numeral.toFloat false = ofMagnitude false (rounded (magnitude value)) ∧
      formatResult value = String.ofList (signed (showsSign value) numeral.text) := by
  rw [formatResult_eq h, showsSign]
  by_cases hne : rounded (magnitude value) = 0
  · refine ⟨⟨['0'], false, []⟩, ⟨by simp, by simp, by simp, rfl⟩, ⟨[], '0', rfl, rfl⟩, ?_, ?_⟩
    · rw [hne]
      decide +kernel
    · rw [if_pos hne, hne, bne_self_eq_false, Bool.and_false]
      rfl
  · refine ⟨numeralOf (shortest (rounded (magnitude value))), isLiteral_numeralOf _, ?_,
      toFloat_shortest false (rounded_lt_infinite h), ?_⟩
    · rw [text_numeralOf]
      exact exists_text_eq_append _
    · rw [if_neg hne, bne_iff_ne.mpr hne, Bool.and_true, text_numeralOf]

theorem evaluateRaw_formatResult (engine : Engine) {value : Float}
    (h : magnitude value < infinite) :
    engine.evaluateRaw (formatResult value) = .ok (displayed value) := by
  obtain ⟨numeral, hliteral, -, hvalue, htext⟩ := exists_numeral h
  rw [htext, evaluateRaw_signed engine _ hliteral (rounded_lt_infinite h) hvalue]
  rfl

theorem evaluate_formatResult (engine : Engine) {value : Float} (h : magnitude value < infinite) :
    engine.evaluate (formatResult value) = .ok (formatResult (displayed value)) := by
  rw [Engine.evaluate, evaluateRaw_formatResult engine h]
  rfl

/-- A displayed float keeps its text if and only if rounding keeps its magnitude. -/
theorem formatResult_displayed_iff {value : Float} (h : magnitude value < infinite) :
    formatResult (displayed value) = formatResult value ↔
      rounded (rounded (magnitude value)) = rounded (magnitude value) := by
  have hrounded := rounded_lt_infinite h
  have hmagnitude := magnitude_displayed h
  have hfinite : magnitude (displayed value) < infinite := by rwa [hmagnitude]
  constructor
  · intro heq
    have hread := evaluateRaw_formatResult {} hfinite
    rw [heq, evaluateRaw_formatResult {} h] at hread
    have hsame := congrArg magnitude (Except.ok.inj hread)
    rw [hmagnitude, magnitude_displayed hfinite, hmagnitude] at hsame
    exact hsame.symm
  · intro hfixed
    rw [formatResult_eq hfinite, formatResult_eq h, hmagnitude, hfixed, isNegative_displayed h]
    by_cases hne : rounded (magnitude value) = 0
    · rw [if_pos hne, if_pos hne]
    · rw [if_neg hne, if_neg hne, showsSign, bne_iff_ne.mpr hne, Bool.and_true]

/-- Whether scaling a float by the factor of ten decimals rounds it up onto a half. -/
def OvershootsHalf (x : Float) : Prop :=
  let product := x * decimalFactor resultDecimals
  2 * (units product % one) = one ∧ units x * 10 ^ 10 < units product

theorem overshootsHalf_iff {x : Float} (h : magnitude x < infinite) :
    OvershootsHalf x ↔ Overshoots (magnitude x) := by
  have hscaled : scaled (magnitude x) ≤ infinite := nearest_le_infinite ..
  simp only [OvershootsHalf, Overshoots, mul_decimalFactor h, units_ofMagnitude _ hscaled]
  rfl

theorem evaluate_eq_ok_iff {engine : Engine} {text result : String} :
    engine.evaluate text = .ok result ↔
      ∃ value, engine.evaluateRaw text = .ok value ∧ formatResult value = result := by
  unfold Engine.evaluate
  cases engine.evaluateRaw text with
  | error fault => exact iff_of_false nofun nofun
  | ok value => simp [Except.map]

theorem lt_infinite_of_evaluateRaw {engine : Engine} {text : String} {value : Float}
    (h : engine.evaluateRaw text = .ok value) : magnitude value < infinite := by
  unfold Engine.evaluateRaw at h
  split at h
  · cases h
  · obtain ⟨rfl, hfinite⟩ := finite_eq_ok_iff.mp h
    exact hfinite

theorem evaluate_result {engine : Engine} {text result : String}
    (h : engine.evaluate text = .ok result) :
    ∃ x, engine.evaluateRaw result = .ok x ∧
      (∃ c ∈ result.toList.getLast?, c.isDigit) ∧
      (∃ again, engine.evaluate result = .ok again ∧ (again = result ↔ ¬ OvershootsHalf x)) ∧
      (OvershootsHalf x → 2 ^ 18 * one ≤ units x ∧ units x * 10 ^ 10 < 2 ^ 52 * one) := by
  obtain ⟨value, hraw, rfl⟩ := evaluate_eq_ok_iff.mp h
  have hvalue := lt_infinite_of_evaluateRaw hraw
  have hrounded := rounded_lt_infinite hvalue
  have hmagnitude := magnitude_displayed hvalue
  have hover := overshootsHalf_iff (x := displayed value) (by rwa [hmagnitude])
  rw [hmagnitude] at hover
  refine ⟨displayed value, evaluateRaw_formatResult engine hvalue, ?_,
    ⟨_, evaluate_formatResult engine hvalue, ?_⟩, ?_⟩
  · obtain ⟨numeral, -, ⟨start, c, htext, hc⟩, -, hformat⟩ := exists_numeral hvalue
    refine ⟨c, ?_, hc⟩
    rw [hformat, String.toList_ofList, htext]
    cases showsSign value
    · exact List.getLast?_concat
    · exact List.getLast?_concat (l := '-' :: start)
  · rw [formatResult_displayed_iff hvalue, rounded_rounded_iff, hover]
  · rw [hover, units, hmagnitude]
    exact bounds_of_rounded_overshoots

theorem evaluate_result_iff {engine : Engine} {text result : String}
    (h : engine.evaluate text = .ok result) :
    ∃ x, engine.evaluateRaw result = .ok x ∧
      (engine.evaluate result = .ok result ↔ ¬ OvershootsHalf x) ∧
      (OvershootsHalf x → 2 ^ 18 * one ≤ units x ∧ units x * 10 ^ 10 < 2 ^ 52 * one) := by
  obtain ⟨x, hraw, -, ⟨again, hagain, hiff⟩, hbounds⟩ := evaluate_result h
  refine ⟨x, hraw, ?_, hbounds⟩
  rw [hagain, Except.ok.injEq, hiff]

theorem loadEntry_of_evaluate {session : Session} {entry : Entry} {again : String}
    (hdigit : ∃ c ∈ entry.result.toList.getLast?, c.isDigit)
    (hagain : session.engine.evaluate entry.result = .ok again) :
    let loaded := session.loadEntry entry
    loaded.mode = .idle ∧ loaded.expression = entry.result ∧ loaded.preview = again ∧
      ∀ now, loaded.calculate now =
        { loaded with
          preview := ""
          result := again
          mode := .showingResult
          history := session.history.push ⟨entry.result, again, now⟩ } := by
  intro loaded
  obtain ⟨c, hlast, hc⟩ := hdigit
  have hpreview : previewOf session.engine entry.result = again := by
    rw [previewOf, if_pos (endsComplete_iff.mpr ⟨c, hlast, Or.inl hc⟩), hagain]
  have hne : loaded.expression ≠ "" := by
    intro hempty
    rw [show entry.result = "" from hempty] at hlast
    cases hlast
  refine ⟨rfl, rfl, hpreview, fun now => ?_⟩
  rw [calculate_of_ok hne hagain]
  rfl

/-- A result is read as a finite float, and evaluating it gives it back exactly if scaling that
float does not round it up onto a half, which happens for magnitudes between 262144 and
450359.9627370496 only. So a result that a run has recorded, once loaded, is previewed and recorded
again as it stands, unless it is one of these. -/
theorem evaluate_displayed (engine : Engine) (capacity : Nat) (language : Language)
    (actions : List Action) :
    (∀ text result, engine.evaluate text = .ok result →
      ∃ x, engine.evaluateRaw result = .ok x ∧
        (engine.evaluate result = .ok result ↔ ¬ OvershootsHalf x) ∧
        (OvershootsHalf x → 2 ^ 18 * one ≤ units x ∧ units x * 10 ^ 10 < 2 ^ 52 * one)) ∧
    let session := (Session.start engine capacity language).run actions
    ∀ index entry, session.history.get? index = some entry →
      ∃ x loaded, engine.evaluateRaw entry.result = .ok x ∧
        session.loadIndex? index = some loaded ∧
        loaded.mode = .idle ∧ loaded.expression = entry.result ∧
        (∃ c ∈ entry.result.toList.getLast?, c.isDigit) ∧
        (loaded.preview = entry.result ↔ ¬ OvershootsHalf x) ∧
        (¬ OvershootsHalf x → ∀ now, loaded.calculate now =
          { loaded with
            preview := ""
            result := entry.result
            mode := .showingResult
            history := session.history.push ⟨entry.result, entry.result, now⟩ }) := by
  refine ⟨fun text result h => evaluate_result_iff h, ?_⟩
  intro session index entry hget
  have hengine : session.engine = engine := run_engine actions
  have hsound : engine.evaluate entry.expression = .ok entry.result := by
    rw [← hengine]
    exact sound_run engine capacity language actions entry (List.mem_of_getElem? hget)
  obtain ⟨x, hraw, hdigit, ⟨again, hagain, hiff⟩, -⟩ := evaluate_result hsound
  rw [← hengine] at hagain
  obtain ⟨hmode, hexpression, hpreview, hcalculate⟩ := loadEntry_of_evaluate hdigit hagain
  refine ⟨x, session.loadEntry entry, hraw, loadIndex?_eq_some_iff.mpr ⟨entry, hget, rfl⟩, hmode,
    hexpression, hdigit, ?_, ?_⟩
  · rw [hpreview, hiff]
  · intro hkept now
    rw [hcalculate now, hiff.mpr hkept]

/-- A result whose last digit moves when it is evaluated again, and so when it is loaded. -/
theorem evaluate_displayed_moves :
    ({} : Engine).evaluate "2883590÷11" = .ok "262144.5454545455" ∧
      ({} : Engine).evaluate "262144.5454545455" = .ok "262144.5454545456" ∧
      ((Session.start {} 50 .english).run
        [.input "2883590", .input "÷", .input "11", .calculate 0, .loadIndex 0]).preview =
          "262144.5454545456" := by
  refine ⟨?_, ?_, ?_⟩ <;> decide +kernel

end PocketCalculator.Proofs.DisplayedResult
