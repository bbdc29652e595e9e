import PocketCalculator.Proofs.Characters
import PocketCalculator.Proofs.WrittenNumbers
import PocketCalculator.Proofs.YamlCursors
import PocketCalculator.Proofs.YamlQuotes
import PocketCalculator.Settings.Yaml.Node

namespace PocketCalculator.Proofs.YamlPlain

open PocketCalculator.Settings.Yaml
open PocketCalculator.Proofs.Characters
open PocketCalculator.Proofs.PlainDocuments
open PocketCalculator.Proofs.WrittenNumbers
open PocketCalculator.Proofs.YamlCursors
open PocketCalculator.Proofs.YamlQuotes

structure IsWord (text : List Char) : Prop where
  nonempty : text ≠ []
  gap : ∀ c ∈ text, isGap c = false
  colon : text.getLast? ≠ some ':'

/-- Words with blanks between them. Only the first of them may start with a number sign. -/
inductive AreWords : List Char → Prop where
  | last {text : List Char} : IsWord text → AreWords text
  | cons {text gap rest : List Char} : IsWord text → gap ≠ [] → (∀ c ∈ gap, c = ' ') →
      AreWords rest → rest.head? ≠ some '#' → AreWords (text ++ gap ++ rest)

theorem word_append {text rest : List Char} (h : IsWord text) (hrest : word false rest = []) :
    word false (text ++ rest) = text := by
  obtain ⟨-, hgap, hcolon⟩ := h
  induction text with
  | nil => exact hrest
  | cons c text ih =>
    have hc : isGap c = false := hgap c (by simp)
    rw [List.cons_append, word]
    cases text with
    | nil =>
      have hne : c ≠ ':' := by simpa using hcolon
      simp [hc, hne, hrest]
    | cons d text =>
      have hd : startsGap (d :: (text ++ rest)) = false := hgap d (by simp)
      rw [ih (fun e he => hgap e (by simp [he])) (by simpa [List.getLast?_cons] using hcolon)]
      simp [hc, hd]

theorem AreWords.exists_word {text : List Char} (h : AreWords text) :
    ∃ first rest, text = first ++ rest ∧ IsWord first ∧ ∀ c ∈ rest.head?, isGap c := by
  cases h with
  | last h => exact ⟨text, [], by simp, h, by simp⟩
  | @cons first gap rest h hne hgap =>
    obtain ⟨c, gap, rfl⟩ := List.exists_cons_of_ne_nil hne
    obtain rfl := hgap c (by simp)
    exact ⟨first, ' ' :: gap ++ rest, by simp, h, by simp [isGap, Text.isSpaceOrTab]⟩

theorem AreWords.prepend {c : Char} {text : List Char} (h : AreWords text) (hc : isGap c = false) :
    AreWords (c :: text) := by
  have hword {first : List Char} (h : IsWord first) : IsWord (c :: first) := by
    obtain ⟨d, first, rfl⟩ := List.exists_cons_of_ne_nil h.nonempty
    exact ⟨by simp, by simpa [hc] using h.gap, by simpa [List.getLast?_cons] using h.colon⟩
  cases h with
  | last h => exact .last (hword h)
  | cons h hne hgap hrest hhead => exact .cons (hword h) hne hgap hrest hhead

theorem exists_words {before : Char} {cs : List Char} (hne : cs ≠ [])
    (hchars : ∀ c ∈ cs, isGap c → c = ' ') (hlast : cs.getLast? ≠ some ' ')
    (hinner : hasInnerIndicator before cs = false) :
    ∃ gap text, cs = gap ++ text ∧ (∀ c ∈ gap, c = ' ') ∧ AreWords text ∧
      (gap ≠ [] → text.head? ≠ some '#') := by
  induction cs generalizing before with
  | nil => exact absurd rfl hne
  | cons c rest ih =>
    simp only [hasInnerIndicator, Bool.or_eq_false_iff, Bool.and_eq_false_iff,
      beq_eq_false_iff_ne] at hinner
    obtain ⟨⟨hcolon, hcomment⟩, hinner⟩ := hinner
    cases rest with
    | nil =>
      have hspace : c ≠ ' ' := by simpa using hlast
      have hgap : isGap c = false := by
        rw [← Bool.not_eq_true]
        exact fun hgap => hspace (hchars c (by simp) hgap)
      have hne : c ≠ ':' := by
        rintro rfl
        simp [startsGap] at hcolon
      exact ⟨[], [c], rfl, by simp, .last ⟨by simp, by simpa using hgap, by simpa using hne⟩,
        by simp⟩
    | cons d rest =>
      obtain ⟨gap, text, hsplit, hgap, hwords, hhead⟩ :=
        ih (by simp) (fun e he => hchars e (by simp [he]))
          (by simpa [List.getLast?_cons] using hlast) hinner
      by_cases hc : isGap c
      case pos =>
        obtain rfl := hchars c (by simp) hc
        refine ⟨' ' :: gap, text, by rw [hsplit, List.cons_append], by simpa using hgap, hwords,
          fun _ => ?_⟩
        cases gap with
        | nil =>
          have hd : d ≠ '#' := by
            rintro rfl
            simp [hasInnerIndicator, isGap, Text.isSpaceOrTab] at hinner
          rw [← List.nil_append text, ← hsplit]
          simpa using hd
        | cons e gap => exact hhead (by simp)
      case neg =>
        rw [Bool.not_eq_true] at hc
        cases gap with
        | nil =>
          exact ⟨[], c :: text, by rw [hsplit, List.nil_append, List.nil_append], by simp,
            hwords.prepend hc, by simp⟩
        | cons e gap =>
          have hd : startsGap (d :: rest) := by
            rw [hsplit, List.cons_append, startsGap, hgap e (by simp)]
            rfl
          have hne : c ≠ ':' := by
            rintro rfl
            simp [hd] at hcolon
          refine ⟨[], [c] ++ e :: gap ++ text, by simp [hsplit], by simp, ?_, by simp⟩
          exact .cons ⟨by simp, by simpa using hc, by simpa using hne⟩ (by simp) hgap hwords
            (hhead (by simp))

theorem moveTo_append {cursor : Cursor} (run : List Char) {rest : List Char}
    (h : cursor.rest = run ++ rest) :
    cursor.moveTo rest = { cursor.pass run with rest } := by
  have hlength : cursor.rest.length - rest.length = run.length := by
    rw [h, List.length_append, Nat.add_sub_cancel]
  rw [Cursor.moveTo, hlength, h, List.take_left]

theorem moveTo_rest (cursor : Cursor) : cursor.moveTo cursor.rest = cursor := by
  rw [moveTo_append [] rfl]
  rfl

theorem pass_run (cursor : Cursor) {run : List Char} (h : ∀ c ∈ run, isBreak c = false) :
    (cursor.pass run).column = cursor.column + run.length ∧
      (cursor.fresh = false → (cursor.pass run).fresh = false) := by
  induction run generalizing cursor with
  | nil => exact ⟨rfl, id⟩
  | cons c run ih =>
    obtain ⟨hcolumn, hfresh⟩ := ih ⟨cursor.column + 1, cursor.fresh && Text.isSpaceOrTab c, []⟩
      fun d hd => h d (by simp [hd])
    have hc : isBreak c = false := h c (by simp)
    simp only [Cursor.pass, hc, Bool.false_eq_true, if_false]
    refine ⟨?_, fun hcursor => hfresh (by rw [hcursor, Bool.false_and])⟩
    rw [hcolumn, List.length_cons, Nat.add_right_comm, Nat.add_assoc]

theorem pass_spaces (column spaces : Nat) :
    Cursor.pass ⟨column, true, []⟩ (List.replicate spaces ' ') = ⟨column + spaces, true, []⟩ := by
  induction spaces generalizing column with
  | zero => rfl
  | succ spaces ih =>
    have hbreak : isBreak ' ' = false := rfl
    have hblank : Text.isSpaceOrTab ' ' := rfl
    simp only [List.replicate_succ, Cursor.pass, hbreak, hblank, Bool.false_eq_true, if_false,
      Bool.and_self]
    rw [ih, Nat.add_assoc, Nat.add_comm 1]

theorem moveTo_lineStart (cursor : Cursor) {column : Nat} {rest : List Char}
    (hrest : Follows column rest) (h : cursor.rest = '\n' :: rest) :
    cursor.moveTo (cursor.rest.drop (cursor.rest.takeWhile isGap).length) = lineStart rest := by
  have hbreak : isGap '\n' := rfl
  rw [drop_length_takeWhile]
  cases hrest with
  | nothing =>
    have hdrop : cursor.rest.dropWhile isGap = [] := by simp [h, hbreak]
    rw [hdrop, moveTo_append ['\n'] h]
    rfl
  | @key indent c rest _ hc =>
    have hgap : ∀ d ∈ '\n' :: List.replicate indent ' ', isGap d := by
      intro d hd
      rcases List.mem_cons.mp hd with rfl | hd
      · rfl
      · rw [List.eq_of_mem_replicate hd]
        rfl
    have hdrop : cursor.rest.dropWhile isGap = c :: rest := by
      rw [h, ← List.cons_append]
      exact (takeWhile_append_of_ends hgap (by simpa using isGap_of_isKeyLetter hc)).2
    have hline : isBreak '\n' := rfl
    rw [hdrop, moveTo_append ('\n' :: List.replicate indent ' ') h, lineStart_key rest hc,
      Cursor.pass, if_pos hline, pass_spaces, Nat.zero_add]

theorem word_eq_nil_of_gap {c : Char} (rest : List Char) (h : isGap c) :
    word false (c :: rest) = [] := by
  simp [word, h]

theorem lineStart_ends {column : Nat} {rest : List Char} (h : Follows column rest) :
    word false (lineStart rest).rest = [] ∨
      ((lineStart rest).fresh ∧ (lineStart rest).column < column + 1) := by
  cases h with
  | nothing => exact .inl rfl
  | key rest hindent hc =>
    rw [lineStart_key rest hc]
    exact .inr ⟨rfl, Nat.lt_succ_of_le hindent⟩

theorem AreWords.start {text : List Char} (h : AreWords text) (rest : List Char) :
    word false (text ++ '\n' :: rest) ≠ [] ∧
      ∀ c ∈ (text ++ '\n' :: rest).head?, isGap c = false := by
  obtain ⟨first, more, rfl, hfirst, hmore⟩ := h.exists_word
  have hends : word false (more ++ '\n' :: rest) = [] := by
    cases more with
    | nil => exact word_eq_nil_of_gap rest rfl
    | cons c more => exact word_eq_nil_of_gap _ (hmore c rfl)
  rw [List.append_assoc, word_append hfirst hends]
  refine ⟨hfirst.nonempty, ?_⟩
  obtain ⟨c, tail, rfl⟩ := List.exists_cons_of_ne_nil hfirst.nonempty
  simpa using hfirst.gap c (by simp)

theorem plainText_last (fuel : Nat) {column : Nat} (cursor : Cursor) {text rest : List Char}
    (h : IsWord text) (hrest : Follows column rest) (hcursor : cursor.rest = text ++ '\n' :: rest) :
    plainText false (column + 1) (fuel + 1) cursor = (text, lineStart rest) := by
  have hword : word false cursor.rest = text := by
    rw [hcursor]
    exact word_append h (word_eq_nil_of_gap rest rfl)
  have hstop : cursor.rest.drop text.length = '\n' :: rest := by
    rw [hcursor, List.drop_left]
  have hnext := moveTo_lineStart (cursor.moveTo ('\n' :: rest)) hrest rfl
  simp only [plainText, hword, hstop, hnext]
  rw [if_pos]
  rcases lineStart_ends hrest with hword | ⟨hfresh, hcolumn⟩
  · simp [hword]
  · simp [hfresh, hcolumn]

theorem plainText_cons (fuel indent : Nat) (cursor : Cursor) {first gap more : List Char}
    (h : IsWord first) (hne : gap ≠ []) (hgap : ∀ c ∈ gap, c = ' ')
    (hmore : word false more ≠ []) (hmoreGap : ∀ c ∈ more.head?, isGap c = false)
    (hcomment : more.head? ≠ some '#') (hcursor : cursor.rest = first ++ (gap ++ more))
    (hfresh : cursor.fresh = false) :
    ∃ next : Cursor, next.rest = more ∧ next.fresh = false ∧
      plainText false indent (fuel + 1) cursor =
        (first ++ gap ++ (plainText false indent fuel next).1,
          (plainText false indent fuel next).2) := by
  have hgaps : ∀ c ∈ gap, isGap c := fun c hc => hgap c hc ▸ rfl
  have hbreaks : ∀ c ∈ gap, isBreak c = false := fun c hc => hgap c hc ▸ rfl
  have hword : word false cursor.rest = first := by
    obtain ⟨c, gap, rfl⟩ := List.exists_cons_of_ne_nil hne
    rw [hcursor]
    exact word_append h (word_eq_nil_of_gap _ (hgaps c (by simp)))
  have hstop : cursor.rest.drop first.length = gap ++ more := by
    rw [hcursor, List.drop_left]
  have hstopFresh : (cursor.moveTo (gap ++ more)).fresh = false := by
    rw [moveTo_append first hcursor]
    exact (pass_run cursor fun c hc => isBreak_of_isGap (h.gap c hc)).2 hfresh
  have hstopRest : (cursor.moveTo (gap ++ more)).rest = gap ++ more := rfl
  have hnextFresh : ((cursor.moveTo (gap ++ more)).moveTo more).fresh = false := by
    rw [moveTo_append gap hstopRest]
    exact (pass_run _ hbreaks).2 hstopFresh
  have hnextRest : ((cursor.moveTo (gap ++ more)).moveTo more).rest = more := rfl
  have hrun := (takeWhile_append_of_ends hgaps hmoreGap).1
  refine ⟨(cursor.moveTo (gap ++ more)).moveTo more, hnextRest, hnextFresh, ?_⟩
  simp only [plainText, hword, hstop, hstopRest, hrun, List.drop_left, hnextRest, hnextFresh,
    folded_spaces hgap]
  rw [if_neg (by simp only [List.isEmpty_iff, hne, hcomment, hmore, Bool.or_eq_true,
    decide_eq_true_eq, Bool.false_and, Bool.false_eq_true, or_self, not_false_eq_true])]

theorem plainText_words {fuel column : Nat} (cursor : Cursor) {text rest : List Char}
    (h : AreWords text) (hrest : Follows column rest) (hcursor : cursor.rest = text ++ '\n' :: rest)
    (hfresh : cursor.fresh = false) (hfuel : text.length < fuel) :
    plainText false (column + 1) fuel cursor = (text, lineStart rest) := by
  induction h generalizing fuel cursor with
  | last h =>
    obtain ⟨fuel, rfl⟩ := Nat.exists_eq_add_of_lt hfuel
    exact plainText_last _ cursor h hrest hcursor
  | @cons first gap more h hne hgap hmore hhead ih =>
    obtain ⟨fuel, rfl⟩ := Nat.exists_eq_add_of_lt hfuel
    obtain ⟨hmoreWord, hmoreGap⟩ := hmore.start rest
    have hcomment : (more ++ '\n' :: rest).head? ≠ some '#' := by
      cases more with
      | nil => simp
      | cons c more => exact hhead
    obtain ⟨next, hnext, hnextFresh, hread⟩ :=
      plainText_cons ((first ++ gap ++ more).length + fuel) (column + 1) cursor h hne hgap
        hmoreWord hmoreGap hcomment (by simpa using hcursor) hfresh
    have hlength : more.length < (first ++ gap ++ more).length + fuel := by
      have hfirst := List.length_pos_iff.mpr h.nonempty
      simp only [List.length_append]
      omega
    rw [hread, ih next hnext hnextFresh hlength]

/-- A text that stands without quotes. -/
structure IsPlainText (text : List Char) : Prop where
  words : AreWords text
  indicator : ∀ c ∈ text.head?, isIndicator c = false
  mark : ∀ c rest, text = c :: rest → c = '-' ∨ c = '?' ∨ c = ':' → startsGap rest = false

theorem IsPlainText.exists_cons {text : List Char} (h : IsPlainText text) :
    ∃ c tail, text = c :: tail ∧ isGap c = false ∧ isIndicator c = false := by
  obtain ⟨first, more, rfl, hfirst, -⟩ := h.words.exists_word
  obtain ⟨c, tail, rfl⟩ := List.exists_cons_of_ne_nil hfirst.nonempty
  exact ⟨c, tail ++ more, rfl, hfirst.gap c (by simp), h.indicator c rfl⟩

theorem startsPlain_append {text : List Char} (rest : List Char) (h : IsPlainText text) :
    startsPlain false (text ++ rest) := by
  obtain ⟨c, tail, rfl, hgap, hindicator⟩ := h.exists_cons
  have hmark (hc : c = '-' ∨ c = '?' ∨ c = ':') : startsGap (tail ++ rest) = false := by
    have hstart := h.mark c tail rfl hc
    cases tail with
    | nil => simp [startsGap] at hstart
    | cons d tail => exact hstart
  rw [List.cons_append]
  unfold startsPlain
  split
  case h_1 heq => cases heq
  case h_2 heq =>
    cases heq
    rw [hmark (.inl rfl)]
    rfl
  case h_3 heq =>
    cases heq
    rw [hmark (.inr (.inl rfl))]
    rfl
  case h_4 heq =>
    cases heq
    rw [hmark (.inr (.inr rfl))]
    rfl
  case h_5 heq =>
    cases heq
    rw [hgap, hindicator]
    rfl

theorem quoted?_eq_none {text rest : List Char} {cursor : Cursor} (h : IsPlainText text)
    (hcursor : cursor.rest = text ++ rest) : quoted? cursor = none := by
  obtain ⟨c, tail, rfl, -, hindicator⟩ := h.exists_cons
  unfold quoted?
  rw [hcursor]
  split
  case h_1 heq =>
    cases heq
    exact absurd hindicator (by decide)
  case h_2 heq =>
    cases heq
    exact absurd hindicator (by decide)
  case h_3 => rfl

theorem scalar?_plain {column : Nat} {cursor : Cursor} {text rest : List Char}
    (h : IsPlainText text) (hrest : Follows column rest)
    (hcursor : cursor.rest = text ++ '\n' :: rest) (hfresh : cursor.fresh = false) :
    scalar? false (column + 1) cursor = some (text, resolve text, lineStart rest) := by
  have hlength : text.length < cursor.rest.length + 1 := by
    simp only [hcursor, List.length_append]
    omega
  rw [scalar?, quoted?_eq_none h hcursor]
  simp only [plainText_words cursor h.words hrest hcursor hfresh hlength, Bool.false_and]
  rw [hcursor, if_pos (startsPlain_append _ h)]
  rfl

theorem eq_of_resolve {cs : List Char} {s : String} (h : resolve cs = .scalar (.text s)) :
    s = String.ofList cs := by
  simp only [resolve] at h
  split at h
  · cases h
  · split at h
    · cases h
    · split at h
      · cases h
      · split at h <;> cases h
        rfl

theorem of_wantedStyle_plain {cs : List Char} (h : wantedStyle cs = .plain) :
    resolve cs = .scalar (.text (String.ofList cs)) := by
  unfold wantedStyle at h
  split at h
  · cases h
  · split at h
    · cases h
    · split at h
      · rename_i heq
        rw [heq, eq_of_resolve heq]
      · cases h

theorem isPlainText_of_layout {cs : List Char} (hne : cs ≠ [])
    (hspecial : (Layout.ofText cs).special = false)
    (hleading : (Layout.ofText cs).leadingGap = false)
    (htrailing : (Layout.ofText cs).trailingSpace = false)
    (hbreak : (Layout.ofText cs).hasBreak = false) (hindicator : hasIndicator cs = false) :
    IsPlainText cs := by
  obtain ⟨c, rest, rfl⟩ := List.exists_cons_of_ne_nil hne
  simp only [Layout.ofText, List.any_eq_false, Bool.not_eq_true', Bool.not_eq_false,
    List.head?_cons, Option.map_some, Option.getD_some, Bool.or_eq_false_iff,
    beq_eq_false_iff_ne] at hspecial hleading htrailing hbreak
  simp only [hasIndicator, Bool.or_eq_false_iff] at hindicator
  obtain ⟨⟨⟨⟨hlist, hstart⟩, -⟩, -⟩, hinner⟩ := hindicator
  have hindicators : isIndicator c = false := by
    simp only [List.contains_eq_mem, List.mem_cons, List.not_mem_nil, or_false,
      decide_eq_false_iff_not, not_or] at hlist
    simp [isIndicator, hlist]
  have hmark (hc : c = '-' ∨ c = '?' ∨ c = ':') : startsGap rest = false := by
    rcases hc with rfl | rfl | rfl <;> simpa using hstart
  have hinner : hasInnerIndicator 'a' (c :: rest) = false := by
    have hcolon : (c == ':' && startsGap rest) = false := by
      by_cases hc : c = ':'
      · rw [hmark (.inr (.inr hc)), Bool.and_false]
      · simp [hc]
    have hgap : isGap 'a' = false := rfl
    rw [hasInnerIndicator, hcolon, hgap, hinner, Bool.and_false]
    rfl
  have hchars : ∀ d ∈ c :: rest, isGap d → d = ' ' := by
    intro d hd hgap
    refine eq_space_of_isSpaceOrTab ?_ (hspecial d hd)
    simpa [isGap, hbreak d hd] using hgap
  obtain ⟨gap, text, hsplit, hgap, hwords, -⟩ := exists_words hne hchars htrailing hinner
  cases gap with
  | cons d gap =>
    obtain rfl := hgap d (by simp)
    exact absurd (List.cons.inj hsplit).1 hleading.1
  | nil =>
    rw [List.nil_append] at hsplit
    refine ⟨hsplit ▸ hwords, by simpa using hindicators, ?_⟩
    rintro d tail ⟨⟩ hd
    exact hmark hd

/-- Plain texts are written without quotes only if they would be read as texts. -/
theorem of_styleOf_plain {cs : List Char} (h : styleOf cs = .plain) :
    IsPlainText cs ∧ resolve cs = .scalar (.text (String.ofList cs)) := by
  have hsuits := suits_styleOf cs
  rw [h] at hsuits
  obtain ⟨hwanted, hspecial, hleading, htrailing, hbreak, hindicator⟩ := hsuits
  have hresolve := of_wantedStyle_plain hwanted
  have hne : cs ≠ [] := by
    rintro rfl
    cases hresolve
  exact ⟨isPlainText_of_layout hne hspecial hleading htrailing hbreak hindicator, hresolve⟩

/-- The characters that mean nothing by themselves wherever they stand. -/
def isSafe (c : Char) : Bool :=
  !isGap c && !isIndicator c && c != '-' && c != '?' && c != ':'

theorem isWord_of_safe {text : List Char} (hne : text ≠ []) (h : ∀ c ∈ text, isSafe c) :
    IsWord text := by
  refine ⟨hne, fun c hc => ?_, fun hlast => absurd (h ':' (List.mem_of_getLast? hlast)) (by decide)⟩
  have hsafe := h c hc
  simp only [isSafe, Bool.and_eq_true, Bool.not_eq_true'] at hsafe
  exact hsafe.1.1.1.1

theorem isPlainText_word {text : List Char} (hne : text ≠ []) (h : ∀ c ∈ text, isSafe c) :
    IsPlainText text := by
  refine ⟨.last (isWord_of_safe hne h), fun c hc => ?_, ?_⟩
  · have hsafe := h c (List.mem_of_head? hc)
    simp only [isSafe, Bool.and_eq_true, Bool.not_eq_true'] at hsafe
    exact hsafe.1.1.1.2
  · rintro c rest rfl hc
    have hsafe := h c (by simp)
    rcases hc with rfl | rfl | rfl <;> exact absurd hsafe (by decide)

theorem isSafe_of_letter {c : Char} (h : c.isDigit || isKeyLetter c) : isSafe c := by
  have hascii : ∀ n < 128, ((Char.ofNat n).isDigit || isKeyLetter (Char.ofNat n)) →
      isSafe (Char.ofNat n) := by decide
  have hlow : c.toNat < 128 := by
    simp only [isKeyLetter, Bool.or_eq_true, beq_iff_eq, isDigit_iff, isLower_iff] at h
    rcases h with h | h | rfl
    · omega
    · omega
    · decide
  have hc := hascii c.toNat hlow
  rw [Char.ofNat_toNat] at hc
  exact hc h

theorem isPlainText_toDigits (n : Nat) : IsPlainText (Nat.toDigits 10 n) :=
  isPlainText_word Nat.toDigits_ne_nil fun c hc =>
    isSafe_of_letter (by simp [isDigit_toDigits n c hc])

theorem isSafe_of_mem_key {key : String} (h : IsKey key) : ∀ c ∈ key.toList, isSafe c := fun c hc =>
  isSafe_of_letter (by simp [h.letters c hc])

theorem isPadded_toDigits (n : Nat) : isPadded (Nat.toDigits 10 n) = false := by
  rw [isPadded, splitSign_of_digits (isDigit_toDigits n)]
  rcases head_toDigits n with hzero | hhead
  · rw [hzero]
    rfl
  · split
    · rename_i rest heq
      exact absurd (congrArg List.head? heq) hhead
    · rfl

theorem integer?_toDigits (n : Nat) : integer? (Nat.toDigits 10 n) = some (n : Int) := by
  have hdigits := isDigit_toDigits n
  have hletter {rest : List Char} {c d : Char} (hd : d.isDigit = false) :
      Nat.toDigits 10 n ≠ c :: d :: rest := by
    intro heq
    rw [heq] at hdigits
    simp [hdigits d (by simp)] at hd
  have hvalue : natural? 10 (Nat.toDigits 10 n) = some n := by
    simp [natural?, Nat.toDigits_ne_nil, decimalValue?_toDigits]
  rw [integer?, isPadded_toDigits, splitSign_of_digits hdigits]
  simp only [Bool.false_eq_true, if_false]
  split
  case h_1 heq => exact absurd heq (hletter rfl)
  case h_2 heq => exact absurd heq (hletter rfl)
  case h_3 heq => exact absurd heq (hletter rfl)
  case h_4 =>
    rw [hvalue]
    rfl

theorem resolve_toDigits (n : Nat) :
    resolve (Nat.toDigits 10 n) = .scalar (.integer n) := by
  have hword {word : String} (h : ∀ c ∈ word.toList.head?, c.isDigit = false) :
      String.ofList (Nat.toDigits 10 n) ≠ word := by
    rintro rfl
    obtain ⟨c, digits, hdigits, hdigit⟩ := exists_toDigits n
    simp [h c (by simp [hdigits])] at hdigit
  have hwords {words : List String}
      (h : words.all fun word => word.toList.head?.all fun c => !c.isDigit) :
      words.contains (String.ofList (Nat.toDigits 10 n)) = false := by
    simp only [List.contains_eq_mem, decide_eq_false_iff_not]
    intro hmem
    refine hword (fun c hc => ?_) rfl
    have hword := List.all_eq_true.mp h _ hmem
    rw [Option.mem_def.mp hc] at hword
    simpa using hword
  have hnull : isNull (String.ofList (Nat.toDigits 10 n)) = false := hwords (by decide)
  have htruth : truth? (String.ofList (Nat.toDigits 10 n)) = none := by
    rw [truth?, hwords (by decide), hwords (by decide)]
    rfl
  simp only [resolve, hnull, htruth, integer?_toDigits, Bool.false_eq_true, if_false]

end PocketCalculator.Proofs.YamlPlain
