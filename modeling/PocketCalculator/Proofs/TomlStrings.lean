import PocketCalculator.Proofs.Characters
import PocketCalculator.Proofs.WrittenNumbers
import PocketCalculator.Settings.Toml.Quoted

namespace PocketCalculator.Proofs.TomlStrings

open PocketCalculator.Settings.Toml
open PocketCalculator.Proofs.Characters
open PocketCalculator.Proofs.WrittenNumbers

/-- A character read before the rest of a string. -/
def before (c : Char) (tail : Option (List Char × List Char)) : Option (List Char × List Char) :=
  tail.map fun (text, rest) => (c :: text, rest)

theorem stringTail_plain {quotes : Quotes} {c : Char} (rest : List Char) (hquote : c ≠ quotes.quote)
    (hslash : c = '\\' → quotes.quote ≠ '"')
    (hplain : isPlain c ∨ (quotes.long ∧ c = '\n')) :
    stringTail quotes .none (c :: rest) = before c (stringTail quotes .none rest) := by
  rw [stringTail.eq_def]
  simp only [reduceCtorEq, if_false, false_and, if_neg hquote,
    if_neg (fun h : c = '\\' ∧ quotes.quote = '"' => hslash h.1 h.2), if_pos hplain]
  rfl

theorem stringTail_escape {long : Bool} {c x : Char} (rest : List Char) (h : escape? x = some c)
    (hlow : x ≠ 'u') (hhigh : x ≠ 'U') :
    stringTail ⟨'"', long⟩ .none ('\\' :: x :: rest) =
      before c (stringTail ⟨'"', long⟩ .none rest) := by
  rw [stringTail.eq_def]
  simp [hlow, hhigh, h]
  rfl

theorem stringTail_code {long : Bool} {c : Char} (rest : List Char) (h : c.toNat < 0x10000) :
    stringTail ⟨'"', long⟩ .none ('\\' :: 'u' :: (Text.hexDigits 4 c.toNat ++ rest)) =
      before c (stringTail ⟨'"', long⟩ .none rest) := by
  have hlength : (Text.hexDigits 4 c.toNat).length = 4 := length_hexDigits (by decide) h
  have hvalue := codePoint?_hexDigits 4 c
  match hdigits : Text.hexDigits 4 c.toNat, hlength with
  | [a, b, d, e], _ =>
    rw [hdigits] at hvalue
    rw [stringTail.eq_def]
    simp [hvalue]
    rfl

/-- How a character that is no quote stands between double quotes: as it is, with an escape of its
own, or with its code. -/
inductive IsWrittenAs (long : Bool) (c : Char) : List Char → Prop where
  | plain : c ≠ '\\' → isPlain c ∨ (long ∧ c = '\n') → IsWrittenAs long c [c]
  | escape {x : Char} : escape? x = some c → x ≠ 'u' → x ≠ 'U' → IsWrittenAs long c ['\\', x]
  | code : c.toNat < 0x10000 → IsWrittenAs long c ('\\' :: 'u' :: Text.hexDigits 4 c.toNat)

theorem isWrittenAs_of_needsEscape (long : Bool) {c : Char} (h : needsEscape c) :
    IsWrittenAs long c ('\\' :: 'u' :: Text.hexDigits 4 c.toNat) := by
  refine .code ?_
  simp only [needsEscape, isPlain, Bool.and_eq_true, Bool.not_eq_true', Bool.or_eq_false_iff,
    Bool.and_eq_false_iff, decide_eq_false_iff_not] at h
  omega

theorem encode_nil (long : Bool) (run : Nat) : encode long run [] = [] := rfl

theorem encode_quote (long : Bool) (run : Nat) (cs : List Char) :
    encode long run ('"' :: cs) =
      if long && run < 2 then '"' :: encode long (run + 1) cs
      else '\\' :: '"' :: encode long 0 cs := rfl

theorem exists_encode (long : Bool) (run : Nat) {c : Char} (cs : List Char) (h : c ≠ '"') :
    ∃ text, encode long run (c :: cs) = text ++ encode long 0 cs ∧ IsWrittenAs long c text := by
  rw [encode.eq_def]
  simp only [if_neg h]
  refine ⟨_, rfl, ?_⟩
  split
  case h_3 =>
    cases long with
    | true => exact .plain (by decide) (.inr ⟨rfl, rfl⟩)
    | false => exact .escape rfl (by decide) (by decide)
  case h_7 hslash =>
    split
    case isTrue hneeds => exact isWrittenAs_of_needsEscape long hneeds
    case isFalse hneeds =>
      refine .plain hslash ?_
      simp_all [needsEscape]
  all_goals exact .escape rfl (by decide) (by decide)

/-- A quote ends a short string. In a long one it does only with two more behind it, and up to two
others before the last three belong to the text. -/
theorem stringTail_mark (quotes : Quotes) (rest : List Char) :
    stringTail quotes .none (quotes.quote :: rest) =
      if quotes.long then
        if (rest.takeWhile (· == quotes.quote)).length < 2 then
          before quotes.quote (stringTail quotes .none rest)
        else
          some (
            List.replicate (min 2 ((rest.takeWhile (· == quotes.quote)).length - 2)) quotes.quote,
            rest.drop (2 + min 2 ((rest.takeWhile (· == quotes.quote)).length - 2)))
      else some ([], rest) := by
  rw [stringTail.eq_def]
  simp only [reduceCtorEq, if_false, false_and, if_true]
  rfl

theorem stringTail_end (quote : Char) (rest : List Char) :
    stringTail ⟨quote, false⟩ .none (quote :: rest) = some ([], rest) :=
  stringTail_mark ⟨quote, false⟩ rest

theorem stringTail_quote {quote : Char} {rest : List Char}
    (h : (rest.takeWhile (· == quote)).length < 2) :
    stringTail ⟨quote, true⟩ .none (quote :: rest) =
      before quote (stringTail ⟨quote, true⟩ .none rest) :=
  (stringTail_mark ⟨quote, true⟩ rest).trans (if_pos h)

theorem stringTail_close {quote : Char} (own : Nat) {rest : List Char} (hown : own ≤ 2)
    (hrest : rest.head? ≠ some quote) :
    stringTail ⟨quote, true⟩ .none (List.replicate (own + 3) quote ++ rest) =
      some (List.replicate own quote, rest) := by
  have hends : ∀ c ∈ rest.head?, (c == quote) = false := by
    intro c hc
    simp only [beq_eq_false_iff_ne]
    rintro rfl
    exact hrest hc
  have hrun : (List.replicate (own + 2) quote ++ rest).takeWhile (· == quote) =
      List.replicate (own + 2) quote :=
    (takeWhile_append_of_ends (by simp) hends).1
  have hdrop : (List.replicate (own + 2) quote ++ rest).drop (2 + own) = rest := by
    rw [Nat.add_comm 2, List.drop_left' (by simp)]
  have hmany : ¬own + 2 < 2 := by omega
  have hmin : min 2 own = own := by omega
  have hmark := stringTail_mark ⟨quote, true⟩ (List.replicate (own + 2) quote ++ rest)
  rw [List.replicate_succ, List.cons_append, hmark]
  simp only [if_true, hrun, List.length_replicate, if_neg hmany, Nat.add_sub_cancel, hmin, hdrop]

theorem stringTail_encode_cons {long : Bool} {run : Nat} {c : Char} (cs rest : List Char)
    (h : c ≠ '"') :
    stringTail ⟨'"', long⟩ .none (encode long run (c :: cs) ++ rest) =
      before c (stringTail ⟨'"', long⟩ .none (encode long 0 cs ++ rest)) := by
  obtain ⟨text, htext, hwritten⟩ := exists_encode long run cs h
  rw [htext, List.append_assoc]
  cases hwritten with
  | plain hslash hplain => exact stringTail_plain _ h (fun hc => absurd hc hslash) hplain
  | escape hx hlow hhigh => exact stringTail_escape _ hx hlow hhigh
  | code hcode => exact stringTail_code _ hcode

theorem stringTail_encode_short (cs rest : List Char) (run : Nat) :
    stringTail ⟨'"', false⟩ .none (encode false run cs ++ '"' :: rest) = some (cs, rest) := by
  induction cs generalizing run with
  | nil => exact stringTail_end '"' rest
  | cons c cs ih =>
    by_cases h : c = '"'
    · subst h
      rw [encode_quote, if_neg (by simp), List.cons_append, List.cons_append,
        stringTail_escape _ rfl (by decide) (by decide), ih, before, Option.map_some]
    · rw [stringTail_encode_cons cs _ h, ih, before, Option.map_some]

theorem head_encode (long : Bool) (run : Nat) (c : Char) (cs rest : List Char) :
    (encode long run (c :: cs) ++ rest).head? = some '\\' ∨
      ((encode long run (c :: cs) ++ rest).head? = some c ∧ (c = '"' → long ∧ run < 2)) := by
  by_cases hc : c = '"'
  · subst hc
    rw [encode_quote]
    by_cases hrun : long && run < 2
    · rw [if_pos hrun]
      exact .inr ⟨rfl, fun _ => by simpa using hrun⟩
    · rw [if_neg hrun]
      exact .inl rfl
  · obtain ⟨text, htext, hwritten⟩ := exists_encode long run cs hc
    rw [htext]
    cases hwritten with
    | plain => exact .inr ⟨rfl, fun hquote => absurd hquote hc⟩
    | escape => exact .inl rfl
    | code => exact .inl rfl

theorem head_encode_ne_quote {long : Bool} {run : Nat} {c : Char} (cs rest : List Char)
    (h : long → run < 2 → c ≠ '"') :
    (encode long run (c :: cs) ++ rest).head? ≠ some '"' := by
  rcases head_encode long run c cs rest with hhead | ⟨hhead, hquote⟩
  · rw [hhead]
    decide
  · rw [hhead]
    rintro ⟨⟩
    exact h (hquote rfl).1 (hquote rfl).2 rfl

theorem takeWhile_eq_nil {c : Char} {cs : List Char} (h : cs.head? ≠ some c) :
    cs.takeWhile (· == c) = [] := by
  cases cs with
  | nil => rfl
  | cons d cs => simpa using h

/-- After a quote, one more may be written, and two only if they end the text. -/
theorem quotes_encode {run : Nat} (cs rest : List Char) (hrun : 0 < run) :
    cs = [] ∨ (run = 1 ∧ cs = ['"']) ∨
      ((encode true run cs ++ rest).takeWhile (· == '"')).length < 2 := by
  match cs with
  | [] => exact .inl rfl
  | c :: cs =>
    refine .inr ?_
    by_cases hone : run = 1 ∧ c = '"'
    case neg =>
      refine .inr ?_
      rw [takeWhile_eq_nil (head_encode_ne_quote cs rest (by grind))]
      decide
    case pos =>
      obtain ⟨rfl, rfl⟩ := hone
      match cs with
      | [] => exact .inl ⟨rfl, rfl⟩
      | d :: cs =>
        refine .inr ?_
        rw [encode_quote, if_pos (by decide), List.cons_append,
          List.takeWhile_cons_of_pos (by simp), takeWhile_eq_nil (head_encode_ne_quote cs rest (by simp))]
        decide

theorem stringTail_encode_long {run : Nat} (cs : List Char) {rest : List Char} (hrun : run ≤ 2)
    (hrest : rest.head? ≠ some '"') :
    stringTail ⟨'"', true⟩ .none (encode true run cs ++ (List.replicate 3 '"' ++ rest)) =
      some (cs, rest) := by
  induction cs generalizing run with
  | nil => exact stringTail_close 0 (by decide) hrest
  | cons c cs ih =>
    by_cases hc : c = '"'
    case neg => rw [stringTail_encode_cons cs _ hc, ih (by decide), before, Option.map_some]
    case pos =>
      subst hc
      by_cases htwo : run < 2
      case neg =>
        rw [encode_quote, if_neg (by simpa using htwo), List.cons_append, List.cons_append,
          stringTail_escape _ rfl (by decide) (by decide), ih (by decide), before, Option.map_some]
      case pos =>
        rw [encode_quote, if_pos (by simpa using htwo), List.cons_append]
        rcases quotes_encode cs (List.replicate 3 '"' ++ rest) (Nat.succ_pos run) with
          rfl | ⟨hone, rfl⟩ | hfew
        · exact stringTail_close 1 (by decide) hrest
        · obtain rfl : run = 0 := by omega
          exact stringTail_close 2 (by decide) hrest
        · rw [stringTail_quote hfew, ih (by omega), before, Option.map_some]

theorem stringTail_literal_short {cs : List Char} (rest : List Char)
    (h : ∀ c ∈ cs, isPlain c ∧ c ≠ '\'') :
    stringTail ⟨'\'', false⟩ .none (cs ++ '\'' :: rest) = some (cs, rest) := by
  induction cs with
  | nil => exact stringTail_end '\'' rest
  | cons c cs ih =>
    obtain ⟨hplain, hquote⟩ := h c (by simp)
    rw [List.cons_append, stringTail_plain _ hquote (fun _ => by decide) (.inl hplain),
      ih fun d hd => h d (by simp [hd]), before, Option.map_some]

theorem quotes_literal {quote : Char} {cs : List Char} (rest : List Char)
    (h : (cs.takeWhile (· == quote)).length < 2) :
    cs = [] ∨ cs = [quote] ∨ ((cs ++ rest).takeWhile (· == quote)).length < 2 := by
  match cs with
  | [] => exact .inl rfl
  | [c] => by_cases hc : c = quote <;> simp [hc]
  | c :: d :: cs =>
    refine .inr (.inr ?_)
    by_cases hc : c = quote
    case neg => simp [hc]
    case pos =>
      by_cases hd : d = quote
      case neg => simp [hc, hd]
      case pos =>
        simp only [hc, hd, beq_self_eq_true, List.takeWhile_cons_of_pos, List.length_cons] at h
        omega

theorem stringTail_literal_long {cs rest : List Char} (h : ∀ c ∈ cs, isPlain c ∨ c = '\n')
    (hrun : longestRun '\'' cs ≤ 2) (hrest : rest.head? ≠ some '\'') :
    stringTail ⟨'\'', true⟩ .none (cs ++ (List.replicate 3 '\'' ++ rest)) = some (cs, rest) := by
  induction cs with
  | nil => exact stringTail_close 0 (by decide) hrest
  | cons c cs ih =>
    rw [longestRun, Nat.max_le] at hrun
    have ih := ih (fun d hd => h d (by simp [hd])) hrun.2
    by_cases hc : c = '\''
    case neg =>
      have hplain := h c (by simp)
      rw [List.cons_append, stringTail_plain _ hc (fun _ => by decide) (by simpa using hplain), ih,
        before, Option.map_some]
    case pos =>
      subst hc
      have hfirst : (cs.takeWhile (· == '\'')).length < 2 := by
        have := hrun.1
        rw [List.takeWhile_cons_of_pos (by simp), List.length_cons] at this
        omega
      rcases quotes_literal (List.replicate 3 '\'' ++ rest) hfirst with rfl | rfl | hfew
      · exact stringTail_close 1 (by decide) hrest
      · exact stringTail_close 2 (by decide) hrest
      · rw [List.cons_append, stringTail_quote hfew, ih, before, Option.map_some]

theorem isPlain_of_needsEscape {c : Char} (h : needsEscape c = false) : isPlain c ∨ c = '\n' := by
  by_cases hc : c = '\n'
  · exact .inr hc
  · exact .inl (by simpa [needsEscape, hc] using h)

theorem not_mem_of_longestRun {c : Char} {cs : List Char} (h : longestRun c cs = 0) : c ∉ cs := by
  induction cs with
  | nil => simp
  | cons d cs ih =>
    rw [longestRun, Nat.max_eq_zero_iff] at h
    obtain ⟨hfirst, hrest⟩ := h
    have hd : d ≠ c := by
      rintro rfl
      simp at hfirst
    simp [hd.symm, ih hrest]

theorem chooseQuotes_cases (cs : List Char) :
    (chooseQuotes cs).quote = '"' ∨
      (chooseQuotes cs = ⟨'\'', false⟩ ∧ cs ≠ [] ∧ ∀ c ∈ cs, isPlain c ∧ c ≠ '\'') ∨
      (chooseQuotes cs = ⟨'\'', true⟩ ∧ (∀ c ∈ cs, isPlain c ∨ c = '\n') ∧
        longestRun '\'' cs ≤ 2) := by
  unfold chooseQuotes
  by_cases hneeds : cs.any needsEscape
  case pos => simp [hneeds]
  case neg =>
    have hplain : ∀ c ∈ cs, isPlain c ∨ c = '\n' := fun c hc =>
      isPlain_of_needsEscape (by simpa using fun h => hneeds (List.any_eq_true.mpr ⟨c, hc, h⟩))
    simp only [if_neg hneeds]
    split
    · exact .inl rfl
    split
    case isTrue hnone hsingle =>
      refine .inr (.inl ⟨rfl, ?_, fun c hc => ?_⟩)
      · rintro rfl
        simp [longestRun] at hnone
      · simp only [Bool.and_eq_true, decide_eq_true_eq, Bool.not_eq_true',
          List.contains_eq_mem, decide_eq_false_iff_not] at hsingle
        refine ⟨(hplain c hc).resolve_right ?_, ?_⟩
        · rintro rfl
          exact hsingle.2 hc
        · rintro rfl
          exact not_mem_of_longestRun hsingle.1 hc
    split
    · exact .inl rfl
    split
    case isTrue hfew => exact .inr (.inr ⟨rfl, hplain, hfew⟩)
    case isFalse => exact .inl rfl

theorem quote_chooseQuotes (cs : List Char) :
    (chooseQuotes cs).quote = '"' ∨ (chooseQuotes cs).quote = '\'' := by
  rcases chooseQuotes_cases cs with hdouble | ⟨hsingle, -⟩ | ⟨hsingle, -⟩
  · exact .inl hdouble
  · exact .inr (by rw [hsingle])
  · exact .inr (by rw [hsingle])

theorem longTail_start {quote : Char} {cs body : List Char}
    (h : '\n' ∉ cs → body.head? ≠ some '\n') :
    longTail quote ((if cs.contains '\n' then ['\n'] else []) ++ body) =
      stringTail ⟨quote, true⟩ .none body := by
  by_cases hbreak : '\n' ∈ cs
  · simp [hbreak, longTail]
  · have hhead := h hbreak
    simp only [List.contains_eq_mem, hbreak, decide_false, Bool.false_eq_true, if_false,
      List.nil_append]
    unfold longTail
    split
    · exact absurd rfl hhead
    · rfl

theorem string?_short {quote : Char} {body : List Char} (hquote : quote = '"' ∨ quote = '\'')
    (h : ¬[quote, quote] <+: body) :
    string? (quote :: body) = stringTail ⟨quote, false⟩ .none body := by
  unfold string?
  split
  · rename_i heq
    cases heq
    exact absurd ⟨_, rfl⟩ h
  · rename_i heq
    cases heq
    exact absurd ⟨_, rfl⟩ h
  · rcases hquote with rfl | rfl <;> rfl

theorem not_prefix_of_head {quote : Char} {body : List Char} (h : body.head? ≠ some quote) :
    ¬[quote, quote] <+: body := by
  rintro ⟨rest, rfl⟩
  exact h rfl

theorem string?_double_short (cs rest : List Char) :
    string? ('"' :: (encode false 0 cs ++ '"' :: '\n' :: rest)) = some (cs, '\n' :: rest) := by
  rw [string?_short (.inl rfl), stringTail_encode_short]
  cases cs with
  | nil => simp [encode_nil]
  | cons c cs => exact not_prefix_of_head (head_encode_ne_quote cs _ (by simp))

theorem longTail_double (cs rest : List Char) :
    longTail '"' ((if cs.contains '\n' then ['\n'] else []) ++
        (encode true 0 cs ++ (List.replicate 3 '"' ++ '\n' :: rest))) =
      some (cs, '\n' :: rest) := by
  rw [longTail_start, stringTail_encode_long cs (by decide) (by simp)]
  intro hbreak
  cases cs with
  | nil => simp [encode_nil]
  | cons c cs =>
    rcases head_encode true 0 c cs (List.replicate 3 '"' ++ '\n' :: rest) with hhead | ⟨hhead, -⟩
    · rw [hhead]
      decide
    · rw [hhead]
      rintro ⟨⟩
      exact hbreak (by simp)

theorem longTail_single {cs : List Char} (rest : List Char) (h : ∀ c ∈ cs, isPlain c ∨ c = '\n')
    (hrun : longestRun '\'' cs ≤ 2) :
    longTail '\'' ((if cs.contains '\n' then ['\n'] else []) ++
        (cs ++ (List.replicate 3 '\'' ++ '\n' :: rest))) =
      some (cs, '\n' :: rest) := by
  rw [longTail_start, stringTail_literal_long h hrun (by simp)]
  intro hbreak
  cases cs with
  | nil => simp
  | cons c cs =>
    rintro ⟨⟩
    exact hbreak (by simp)

theorem quoted_short {text : String} {quote : Char}
    (h : chooseQuotes text.toList = ⟨quote, false⟩) (rest : List Char) :
    quoted text ++ rest =
      quote :: ((if quote = '"' then encode false 0 text.toList else text.toList) ++
        quote :: rest) := by
  simp [quoted, h]

theorem quoted_long {text : String} {quote : Char}
    (h : chooseQuotes text.toList = ⟨quote, true⟩) (rest : List Char) :
    quoted text ++ rest =
      quote :: quote :: quote :: ((if text.toList.contains '\n' then ['\n'] else []) ++
        ((if quote = '"' then encode true 0 text.toList else text.toList) ++
          (List.replicate 3 quote ++ rest))) := by
  simp [quoted, h, List.replicate]

theorem string?_quoted (text : String) (rest : List Char) :
    string? (quoted text ++ '\n' :: rest) = some (text.toList, '\n' :: rest) := by
  rcases chooseQuotes_cases text.toList with
    hdouble | ⟨hsingle, hne, hplain⟩ | ⟨hsingle, hplain, hrun⟩
  case inl =>
    cases hquotes : chooseQuotes text.toList with
    | mk quote long =>
      rw [hquotes] at hdouble
      obtain rfl : quote = '"' := hdouble
      cases long with
      | false =>
        rw [quoted_short hquotes]
        exact string?_double_short text.toList rest
      | true =>
        rw [quoted_long hquotes]
        exact longTail_double text.toList rest
  case inr.inl =>
    obtain ⟨c, cs, htext⟩ := List.exists_cons_of_ne_nil hne
    have hhead : (text.toList ++ '\'' :: '\n' :: rest).head? ≠ some '\'' := by
      have hc := (hplain c (by simp [htext])).2
      simpa [htext] using hc
    rw [quoted_short hsingle]
    exact (string?_short (.inr rfl) (not_prefix_of_head hhead)).trans
      (stringTail_literal_short ('\n' :: rest) hplain)
  case inr.inr =>
    rw [quoted_long hsingle]
    exact longTail_single rest hplain hrun

theorem exists_quoted (text : String) :
    ∃ c tail, quoted text = c :: tail ∧ (c = '"' ∨ c = '\'') := by
  cases hquotes : chooseQuotes text.toList with
  | mk quote long =>
    have hquote := quote_chooseQuotes text.toList
    rw [hquotes] at hquote
    cases long with
    | false => exact ⟨quote, _, (List.append_nil _).symm.trans (quoted_short hquotes []), hquote⟩
    | true => exact ⟨quote, _, (List.append_nil _).symm.trans (quoted_long hquotes []), hquote⟩

theorem return_not_mem_encode (long : Bool) (run : Nat) (cs : List Char) :
    '\r' ∉ encode long run cs := by
  induction cs generalizing run with
  | nil => simp [encode_nil]
  | cons c cs ih =>
    by_cases hc : c = '"'
    case pos =>
      subst hc
      rw [encode_quote]
      split <;> simp [ih]
    case neg =>
      obtain ⟨text, htext, hwritten⟩ := exists_encode long run cs hc
      rw [htext, List.mem_append, or_iff_left (ih 0)]
      cases hwritten with
      | plain _ hplain =>
        intro hmem
        obtain rfl := List.mem_singleton.mp hmem
        exact absurd hplain (by simp [isPlain])
      | escape hx =>
        intro hmem
        obtain rfl : '\r' = _ := by simpa using hmem
        cases hx
      | code =>
        have hhex : '\r' ∉ Text.hexDigits 4 c.toNat := fun hmem =>
          absurd (isAlphanum_hexDigits _ hmem) (by decide)
        simp [hhex]

theorem return_not_mem_quoted (text : String) : '\r' ∉ quoted text := by
  have hbody : '\r' ∉ if (chooseQuotes text.toList).quote = '"' then
      encode (chooseQuotes text.toList).long 0 text.toList else text.toList := by
    rcases chooseQuotes_cases text.toList with hdouble | ⟨hsingle, -, hplain⟩ | ⟨hsingle, hplain, -⟩
    · rw [if_pos hdouble]
      exact return_not_mem_encode _ 0 _
    · rw [hsingle]
      exact fun hmem => absurd (hplain _ hmem).1 (by decide)
    · rw [hsingle]
      exact fun hmem => absurd (hplain _ hmem) (by decide)
  have hquote : '\r' ≠ (chooseQuotes text.toList).quote := by
    rcases quote_chooseQuotes text.toList with hdouble | hsingle
    · rw [hdouble]
      decide
    · rw [hsingle]
      decide
  have hmark (n : Nat) : '\r' ∉ List.replicate n (chooseQuotes text.toList).quote :=
    fun hmem => hquote (List.eq_of_mem_replicate hmem)
  have hstart (b : Bool) : '\r' ∉ (if b then ['\n'] else []) := by cases b <;> decide
  simp only [quoted, List.mem_append, hmark, hstart, hbody, or_self, not_false_eq_true]

end PocketCalculator.Proofs.TomlStrings
