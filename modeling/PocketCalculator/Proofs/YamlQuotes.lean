import PocketCalculator.Proofs.WrittenNumbers
import PocketCalculator.Settings.Yaml.Scalar
import PocketCalculator.Settings.Yaml.Style

namespace PocketCalculator.Proofs.YamlQuotes

open PocketCalculator.Settings.Yaml
open PocketCalculator.Proofs.WrittenNumbers

theorem eq_space_of_isSpaceOrTab {c : Char} (h : Text.isSpaceOrTab c) (hprintable : isPrintable c) : c = ' ' := by
  simp only [Text.isSpaceOrTab, Bool.or_eq_true, beq_iff_eq] at h
  rcases h with rfl | rfl
  · rfl
  · exact absurd hprintable (by decide)

theorem folded_spaces {gap : List Char} (h : ∀ c ∈ gap, c = ' ') : folded gap = gap := by
  have hbreaks : gap.filter isBreak = [] := List.filter_eq_nil_iff.mpr fun c hc => by
    rw [h c hc]
    decide
  simp [folded, hbreaks]

theorem meetsBoundary_spaces {gap : List Char} (rest : List Char) (h : ∀ c ∈ gap, c = ' ') :
    meetsBoundary gap rest = false := by
  rw [meetsBoundary]
  cases hlast : gap.getLast? with
  | none => rfl
  | some c =>
    obtain rfl := h c (List.mem_of_getLast? hlast)
    rfl

/-- Some blanks and a character read before the rest of a string. -/
def before (blanks : List Char) (c : Char) (tail : Option (List Char × List Char)) :
    Option (List Char × List Char) :=
  tail.map fun (text, rest) => (blanks ++ c :: text, rest)

section

variable {blanks : List Char} (hblanks : ∀ c ∈ blanks, c = ' ')

include hblanks

theorem doubleTail_escape {c x : Char} (rest : List Char) (h : escape? x = some c)
    (hbreak : isBreak x = false) (hx : x ≠ 'x') (hu : x ≠ 'u') (hU : x ≠ 'U') :
    doubleTail false blanks ('\\' :: x :: rest) = before blanks c (doubleTail false [] rest) := by
  have hslash : isGap '\\' = false := rfl
  rw [doubleTail.eq_def]
  simp [hslash, meetsBoundary_spaces _ hblanks, hx, hu, hU, h, hbreak, pendingText,
    folded_spaces hblanks]
  rfl

theorem doubleTail_plain {c : Char} (rest : List Char) (hgap : isGap c = false) (hquote : c ≠ '"')
    (hslash : c ≠ '\\') :
    doubleTail false blanks (c :: rest) = before blanks c (doubleTail false [] rest) := by
  rw [doubleTail.eq_def]
  simp [hgap, meetsBoundary_spaces _ hblanks, hquote, hslash, pendingText, folded_spaces hblanks]
  rfl

theorem doubleTail_digits {mark c : Char} {digits : List Char} (rest : List Char)
    (hmark : (mark, digits.length) ∈ [('x', 2), ('u', 4), ('U', 8)])
    (hvalue : Text.codePoint? digits = some c) :
    doubleTail false blanks ('\\' :: mark :: (digits ++ rest)) =
      before blanks c (doubleTail false [] rest) := by
  have hslash : isGap '\\' = false := rfl
  have hstart (tail : List Char) := meetsBoundary_spaces tail hblanks
  have hlead : pendingText false blanks = blanks := folded_spaces hblanks
  simp only [List.mem_cons, Prod.mk.injEq, List.not_mem_nil, or_false] at hmark
  rcases hmark with ⟨rfl, hlength⟩ | ⟨rfl, hlength⟩ | ⟨rfl, hlength⟩
  · match digits, hlength with
    | [a, b], _ =>
      rw [doubleTail.eq_def]
      simp [hslash, hstart, hvalue, hlead, before]
  · match digits, hlength with
    | [a, b, d, e], _ =>
      rw [doubleTail.eq_def]
      simp [hslash, hstart, hvalue, hlead, before]
  · match digits, hlength with
    | [a, b, d, e, f, g, h, i], _ =>
      rw [doubleTail.eq_def]
      simp [hslash, hstart, hvalue, hlead, before]

theorem doubleTail_code (c : Char) (rest : List Char) :
    doubleTail false blanks ((if c.toNat ≤ 0xFF then '\\' :: 'x' :: Text.hexDigits 2 c.toNat
        else if c.toNat ≤ 0xFFFF then '\\' :: 'u' :: Text.hexDigits 4 c.toNat
        else '\\' :: 'U' :: Text.hexDigits 8 c.toNat) ++ rest) =
      before blanks c (doubleTail false [] rest) := by
  split
  case isTrue h =>
    refine doubleTail_digits hblanks rest ?_ (codePoint?_hexDigits 2 c)
    rw [length_hexDigits (by decide) (show c.toNat < 0x100 by omega)]
    decide
  case isFalse =>
    split
    case isTrue h =>
      refine doubleTail_digits hblanks rest ?_ (codePoint?_hexDigits 4 c)
      rw [length_hexDigits (by decide) (show c.toNat < 0x10000 by omega)]
      decide
    case isFalse =>
      refine doubleTail_digits hblanks rest ?_ (codePoint?_hexDigits 8 c)
      rw [length_hexDigits (by decide) c.val.toNat_lt]
      decide

theorem doubleTail_encodeChar {c : Char} (rest : List Char) (hspace : c ≠ ' ') :
    doubleTail false blanks (encodeChar c ++ rest) =
      before blanks c (doubleTail false [] rest) := by
  unfold encodeChar
  split
  case h_15 htab hbreak _ _ _ _ hquote hslash _ hline hparagraph =>
    by_cases hprintable : isPrintable c
    · have hgap : isGap c = false := by
        simp only [isGap, Text.isSpaceOrTab, isBreak, Bool.or_eq_false_iff, beq_eq_false_iff_ne]
        exact ⟨⟨hspace, htab⟩, ⟨hbreak, hline⟩, hparagraph⟩
      simp only [if_pos hprintable, List.singleton_append]
      exact doubleTail_plain hblanks rest hgap hquote hslash
    · simp only [if_neg hprintable]
      exact doubleTail_code hblanks c rest
  all_goals exact doubleTail_escape hblanks _ rfl rfl (by decide) (by decide) (by decide)

end

theorem doubleTail_flatMap (blanks cs rest : List Char)
    (hblanks : ∀ b ∈ blanks, b = ' ') :
    doubleTail false blanks (cs.flatMap encodeChar ++ '"' :: rest) = some (blanks ++ cs, rest) := by
  induction cs generalizing blanks with
  | nil =>
    have hquote : isGap '"' = false := rfl
    rw [List.flatMap_nil, List.nil_append, doubleTail.eq_def]
    simp [hquote, meetsBoundary_spaces _ hblanks, pendingText, folded_spaces hblanks]
  | cons c cs ih =>
    rw [List.flatMap_cons, List.append_assoc]
    by_cases hspace : c = ' '
    · subst hspace
      have hgap : isGap ' ' := rfl
      rw [show encodeChar ' ' = [' '] from rfl, List.singleton_append, doubleTail.eq_def]
      simp only [if_pos hgap]
      rw [ih _ (by simpa [or_imp, forall_and] using hblanks), List.append_assoc,
        List.singleton_append]
    · rw [doubleTail_encodeChar hblanks _ hspace, ih [] (by simp)]
      rfl

theorem hasPair_of_append {first second : Char → Bool} (before : List Char) {cs : List Char}
    (h : hasPair first second (before ++ cs) = false) : hasPair first second cs = false := by
  induction before with
  | nil => exact h
  | cons c rest ih =>
    cases htail : rest ++ cs with
    | nil => simp [(List.append_eq_nil_iff.mp htail).2, hasPair]
    | cons d tail =>
      rw [List.cons_append, htail, hasPair, Bool.or_eq_false_iff, ← htail] at h
      exact ih h.2

theorem not_pair_of_append {first second : Char → Bool} {before cs : List Char} {a b : Char}
    (h : hasPair first second (before ++ a :: b :: cs) = false) (ha : first a) :
    second b = false := by
  have hpair := hasPair_of_append _ h
  rw [hasPair, ha, Bool.true_and, Bool.or_eq_false_iff] at hpair
  exact hpair.1

/-- The blanks or line breaks read before a character of the text. `fresh` says that they are
breaks, so that an indent comes next. -/
def IsPending (fresh : Bool) (gap : List Char) : Prop :=
  if fresh then gap ≠ [] ∧ ∀ c ∈ gap, isBreak c ∧ c ≠ '\n' else ∀ c ∈ gap, c = ' '

theorem isPending_nil : IsPending false [] := by simp [IsPending]

theorem isPending_break {fresh : Bool} {gap cs : List Char} {c : Char} (h : IsPending fresh gap)
    (hc : isBreak c) (hline : c ≠ '\n')
    (hpair : hasPair (· == ' ') isBreak (gap ++ c :: cs) = false) :
    IsPending true (gap ++ [c]) := by
  cases fresh with
  | true =>
    have hbreaks : gap ≠ [] ∧ ∀ c ∈ gap, isBreak c ∧ c ≠ '\n' := by simpa [IsPending] using h
    simp only [IsPending, if_true, List.mem_append, List.mem_singleton]
    refine ⟨by simp, fun d hd => ?_⟩
    rcases hd with hd | rfl
    · exact hbreaks.2 d hd
    · exact ⟨hc, hline⟩
  | false =>
    have hspaces : ∀ d ∈ gap, d = ' ' := by simpa [IsPending] using h
    rcases List.eq_nil_or_concat gap with rfl | ⟨start, d, rfl⟩
    · simp [IsPending, hc, hline]
    · obtain rfl := hspaces d (by simp)
      rw [List.concat_eq_append, List.append_assoc, List.singleton_append] at hpair
      simp [not_pair_of_append hpair rfl] at hc

theorem isPending_space {fresh : Bool} {gap cs : List Char} (h : IsPending fresh gap)
    (hpair : hasPair isBreak (· == ' ') (gap ++ ' ' :: cs) = false) :
    fresh = false ∧ IsPending false (gap ++ [' ']) := by
  cases fresh with
  | true =>
    have hbreaks : gap ≠ [] ∧ ∀ c ∈ gap, isBreak c ∧ c ≠ '\n' := by simpa [IsPending] using h
    rcases List.eq_nil_or_concat gap with rfl | ⟨start, d, rfl⟩
    · exact absurd rfl hbreaks.1
    · rw [List.concat_eq_append, List.append_assoc, List.singleton_append] at hpair
      have hspace := not_pair_of_append hpair (hbreaks.2 d (by simp)).1
      simp at hspace
  | false =>
    have hspaces : ∀ d ∈ gap, d = ' ' := by simpa [IsPending] using h
    refine ⟨rfl, ?_⟩
    simpa [IsPending, or_imp, forall_and] using hspaces

theorem folded_breaks {gap : List Char} (indent : Nat)
    (h : ∀ c ∈ gap, isBreak c ∧ c ≠ '\n') (hne : gap ≠ []) :
    folded (gap ++ List.replicate indent ' ') = gap := by
  have hfilter : (gap ++ List.replicate indent ' ').filter isBreak = gap := by
    rw [List.filter_append, List.filter_eq_self.mpr fun c hc => (h c hc).1,
      List.filter_eq_nil_iff.mpr fun c hc => ?_, List.append_nil]
    rw [List.eq_of_mem_replicate hc]
    decide
  obtain ⟨c, rest, rfl⟩ := List.exists_cons_of_ne_nil hne
  have hc : c ≠ '\n' := (h c (by simp)).2
  rw [folded, hfilter]
  simp [hc]

/-- The indent that a line starts with. -/
def lead (indent : Nat) (fresh : Bool) : List Char :=
  if fresh then List.replicate indent ' ' else []

theorem isGap_of_mem_lead {indent : Nat} {fresh : Bool} {c : Char} (h : c ∈ lead indent fresh) :
    isGap c := by
  cases fresh with
  | false => simp [lead] at h
  | true =>
    rw [List.eq_of_mem_replicate h]
    rfl

theorem folded_lead {indent : Nat} {fresh : Bool} {gap : List Char} (h : IsPending fresh gap) :
    folded (gap ++ lead indent fresh) = gap := by
  cases fresh with
  | false => simpa [lead] using folded_spaces (by simpa [IsPending] using h)
  | true =>
    have hbreaks : gap ≠ [] ∧ ∀ c ∈ gap, isBreak c ∧ c ≠ '\n' := by simpa [IsPending] using h
    exact folded_breaks indent hbreaks.2 hbreaks.1

theorem meetsBoundary_lead {indent : Nat} {fresh : Bool} {gap : List Char} (rest : List Char)
    (hindent : 0 < indent) (h : IsPending fresh gap) :
    meetsBoundary (gap ++ lead indent fresh) rest = false := by
  cases fresh with
  | false => simpa [lead] using meetsBoundary_spaces rest (by simpa [IsPending] using h)
  | true =>
    obtain ⟨indent, rfl⟩ := Nat.exists_eq_add_of_lt hindent
    have hspace : isBreak ' ' = false := rfl
    simp [meetsBoundary, lead, hspace, List.replicate_succ']

theorem singleTail_char {gap : List Char} {c : Char} (rest : List Char)
    (hboundary : ∀ rest, meetsBoundary gap rest = false) (hc : isGap c = false) :
    singleTail gap (doubleQuotes [c] ++ rest) = before (folded gap) c (singleTail [] rest) := by
  by_cases hquote : c = '\''
  · subst hquote
    have htext : doubleQuotes ['\''] ++ rest = '\'' :: '\'' :: rest := rfl
    rw [htext, singleTail.eq_def]
    simp [hc, hboundary]
    rfl
  · have htext : doubleQuotes [c] ++ rest = c :: rest := by simp [doubleQuotes, hquote]
    rw [htext, singleTail.eq_def]
    simp [hc, hboundary, hquote]
    rfl

theorem singleTail_close {gap : List Char} {rest : List Char}
    (hboundary : ∀ rest, meetsBoundary gap rest = false) (hrest : rest.head? ≠ some '\'') :
    singleTail gap ('\'' :: rest) = some (folded gap, rest) := by
  have hgap : isGap '\'' = false := rfl
  rw [singleTail.eq_def]
  simp only [hgap, hboundary, Bool.false_eq_true, if_false, if_true]
  split
  · exact absurd rfl hrest
  · rfl

theorem singleTail_gap {gap : List Char} (pending rest : List Char) (h : ∀ c ∈ gap, isGap c) :
    singleTail pending (gap ++ rest) = singleTail (pending ++ gap) rest := by
  induction gap generalizing pending with
  | nil => simp
  | cons c gap ih =>
    rw [List.cons_append, singleTail.eq_def]
    simp only [if_pos (h c (by simp))]
    rw [ih _ fun d hd => h d (by simp [hd])]
    simp

theorem indented_char (indent : Nat) (fresh : Bool) {c : Char} (cs : List Char)
    (hc : isBreak c = false) :
    indented indent fresh (doubleQuotes (c :: cs)) =
      lead indent fresh ++ doubleQuotes [c] ++ indented indent false (doubleQuotes cs) := by
  by_cases hquote : c = '\''
  · subst hquote
    have hbreak : isBreak '\'' = false := rfl
    simp [doubleQuotes, indented, hbreak, lead]
  · simp [doubleQuotes, indented, hquote, hc, lead]

theorem indented_break (indent : Nat) (fresh : Bool) {c : Char} (cs : List Char) (hc : isBreak c) :
    indented indent fresh (doubleQuotes (c :: cs)) =
      c :: indented indent true (doubleQuotes cs) := by
  have hquote : c ≠ '\'' := by
    rintro rfl
    exact absurd hc (by decide)
  simp [doubleQuotes, indented, hquote, hc]

/-- Whether a text ends with a break, or has nothing after one. -/
def endsFresh (fresh : Bool) (cs : List Char) : Bool := (cs.getLast?.map isBreak).getD fresh

theorem endsFresh_cons (fresh : Bool) (c : Char) (cs : List Char) :
    endsFresh fresh (c :: cs) = endsFresh (isBreak c) cs := by
  cases cs with
  | nil => rfl
  | cons d cs => simp [endsFresh, List.getLast?_cons]

theorem singleTail_indented {indent : Nat} {fresh : Bool} {gap cs rest : List Char}
    (hindent : 0 < indent) (hgap : IsPending fresh gap)
    (hcs : ∀ c ∈ cs, isPrintable c ∧ c ≠ '\n')
    (hbreakSpace : hasPair isBreak (· == ' ') (gap ++ cs) = false)
    (hspaceBreak : hasPair (· == ' ') isBreak (gap ++ cs) = false)
    (hrest : rest.head? ≠ some '\'') :
    singleTail gap (indented indent fresh (doubleQuotes cs) ++
        (lead indent (endsFresh fresh cs) ++ '\'' :: rest)) =
      some (gap ++ cs, rest) := by
  induction cs generalizing fresh gap with
  | nil =>
    have hboundary (tail : List Char) := meetsBoundary_lead tail hindent hgap
    have htext : indented indent fresh (doubleQuotes []) = [] := rfl
    rw [htext, List.nil_append, singleTail_gap _ _ fun c => isGap_of_mem_lead]
    rw [show endsFresh fresh [] = fresh from rfl, singleTail_close hboundary hrest,
      folded_lead hgap, List.append_nil]
  | cons c cs ih =>
    obtain ⟨hprintable, hline⟩ := hcs c (by simp)
    have htail : ∀ d ∈ cs, isPrintable d ∧ d ≠ '\n' := fun d hd => hcs d (by simp [hd])
    rw [endsFresh_cons]
    by_cases hbreak : isBreak c
    case pos =>
      have hgap' : isGap c := by simp [isGap, hbreak]
      have hpending := isPending_break hgap hbreak hline hspaceBreak
      rw [indented_break indent fresh cs hbreak, hbreak, List.cons_append, ← List.singleton_append,
        singleTail_gap _ _ (by simpa using hgap'),
        ih hpending htail (by simpa using hbreakSpace) (by simpa using hspaceBreak)]
      simp
    case neg =>
      rw [Bool.not_eq_true] at hbreak
      rw [indented_char indent fresh cs hbreak, hbreak]
      by_cases hspace : c = ' '
      case pos =>
        subst hspace
        obtain ⟨rfl, hpending⟩ := isPending_space hgap hbreakSpace
        have htext : lead indent false ++ doubleQuotes [' '] = [' '] := rfl
        rw [htext, List.append_assoc, singleTail_gap _ _ (List.all_eq_true.mp rfl),
          ih hpending htail (by simpa using hbreakSpace) (by simpa using hspaceBreak)]
        simp
      case neg =>
        have hc : isGap c = false := by
          rw [isGap, hbreak, Bool.or_false, ← Bool.not_eq_true]
          exact fun hblank => hspace (eq_space_of_isSpaceOrTab hblank hprintable)
        have hboundary (tail : List Char) := meetsBoundary_lead tail hindent hgap
        rw [List.append_assoc, List.append_assoc, singleTail_gap _ _ fun c => isGap_of_mem_lead,
          singleTail_char _ hboundary hc, folded_lead hgap,
          ih isPending_nil htail
            (hasPair_of_append (gap ++ [c]) (by simpa using hbreakSpace))
            (hasPair_of_append (gap ++ [c]) (by simpa using hspaceBreak))]
        rfl

/-- What a style says of a text that it was chosen for. -/
def Suits (cs : List Char) : Style → Prop
  | .plain =>
    wantedStyle cs = .plain ∧ (Layout.ofText cs).special = false ∧
      (Layout.ofText cs).leadingGap = false ∧ (Layout.ofText cs).trailingSpace = false ∧
      (Layout.ofText cs).hasBreak = false ∧ hasIndicator cs = false
  | .single =>
    wantedStyle cs ≠ .block ∧ (Layout.ofText cs).breakBeforeSpace = false ∧
      (Layout.ofText cs).spaceBeforeBreak = false ∧ (Layout.ofText cs).special = false
  | .double => True
  | .block =>
    (Layout.ofText cs).trailingSpace = false ∧ (Layout.ofText cs).spaceBeforeBreak = false ∧
      (Layout.ofText cs).special = false

theorem suits_styleOf (cs : List Char) : Suits cs (styleOf cs) := by
  have hquotes (hwanted : wantedStyle cs ≠ .block) :
      Suits cs (if !(Layout.ofText cs).breakBeforeSpace && !(Layout.ofText cs).spaceBeforeBreak &&
        !(Layout.ofText cs).special then .single else .double) := by
    split
    case isTrue hquotable =>
      simp only [Bool.and_eq_true, Bool.not_eq_true'] at hquotable
      exact ⟨hwanted, hquotable.1.1, hquotable.1.2, hquotable.2⟩
    case isFalse => trivial
  unfold styleOf
  cases hwanted : wantedStyle cs with
  | plain =>
    dsimp only
    split
    case isTrue hlayout =>
      simp only [Bool.and_eq_true, Bool.not_eq_true'] at hlayout
      obtain ⟨⟨⟨⟨⟨⟨-, hspecial⟩, hleading⟩, htrailing⟩, -⟩, hbreak⟩, hindicator⟩ := hlayout
      exact ⟨hwanted, hspecial, hleading, htrailing, hbreak, hindicator⟩
    case isFalse => exact hquotes (by simp [hwanted])
  | single => exact hquotes (by simp [hwanted])
  | double => trivial
  | block =>
    dsimp only
    split
    case isTrue => trivial
    case isFalse hlayout =>
      simp only [Bool.or_eq_true, not_or, Bool.not_eq_true] at hlayout
      exact ⟨hlayout.1.1, hlayout.1.2, hlayout.2⟩

theorem isPrintable_of_special {cs : List Char} (h : (Layout.ofText cs).special = false) :
    ∀ c ∈ cs, isPrintable c := by
  intro c hc
  simpa using List.any_eq_false.mp h c hc

theorem break_not_mem_truthWords : ∀ word ∈ truthWords, '\n' ∉ word.toList := by decide

theorem wantedStyle_of_break {cs : List Char} (h : '\n' ∈ cs) : wantedStyle cs = .block := by
  have hword : String.ofList cs ∉ truthWords := fun hmem =>
    break_not_mem_truthWords _ hmem (by simpa using h)
  simp [wantedStyle, hword, h]

theorem of_styleOf_single {cs : List Char} (h : styleOf cs = .single) :
    (∀ c ∈ cs, isPrintable c ∧ c ≠ '\n') ∧ hasPair isBreak (· == ' ') cs = false ∧
      hasPair (· == ' ') isBreak cs = false := by
  have hsuits := suits_styleOf cs
  rw [h] at hsuits
  obtain ⟨hwanted, hbreakSpace, hspaceBreak, hspecial⟩ := hsuits
  refine ⟨fun c hc => ⟨isPrintable_of_special hspecial c hc, ?_⟩, hbreakSpace, hspaceBreak⟩
  rintro rfl
  exact hwanted (wantedStyle_of_break hc)

end PocketCalculator.Proofs.YamlQuotes
