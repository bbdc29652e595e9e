import PocketCalculator.Proofs.Characters
import PocketCalculator.Proofs.YamlCursors
import PocketCalculator.Proofs.YamlQuotes

namespace PocketCalculator.Proofs.YamlBlocks

open PocketCalculator.Settings.Yaml
open PocketCalculator.Proofs.Characters
open PocketCalculator.Proofs.YamlCursors
open PocketCalculator.Proofs.YamlQuotes

/-- A line with its break, at which no blank stands. -/
structure IsLine (line : Line) : Prop where
  text : ∀ c ∈ line.1, isBreak c = false
  break_ : ∃ b, line.2 = [b] ∧ isBreak b
  blank : line.1.getLast? ≠ some ' '

def joined (body : List Line) : List Char := body.flatMap fun line => line.1 ++ line.2

theorem joined_cons (line : Line) (body : List Line) :
    joined (line :: body) = line.1 ++ line.2 ++ joined body := List.flatMap_cons

/-- A line as it stands in a block. Nothing stands on an empty one. -/
def inBlock (indent : Nat) (line : Line) : Line :=
  if line.1 = [] then line else (List.replicate indent ' ' ++ line.1, line.2)

theorem lines_line {text : List Char} {b : Char} (rest : List Char)
    (htext : ∀ c ∈ text, isBreak c = false) (hb : isBreak b) :
    lines (text ++ b :: rest) = (text, [b]) :: lines rest := by
  induction text with
  | nil => simp [lines, hb]
  | cons c text ih =>
    have hc : isBreak c = false := htext c (by simp)
    rw [List.cons_append, lines, ih fun d hd => htext d (by simp [hd])]
    simp [hc]

theorem joined_lines (cs : List Char) : joined (lines cs) = cs := by
  induction cs with
  | nil => rfl
  | cons c rest ih =>
    rw [lines]
    by_cases hc : isBreak c
    · rw [if_pos hc]
      simpa [joined] using ih
    · rw [if_neg hc]
      cases hlines : lines rest with
      | nil =>
        rw [hlines] at ih
        simp [joined, ← ih]
      | cons line more =>
        rw [hlines] at ih
        simpa [joined] using ih

theorem indented_text (indent : Nat) (text rest : List Char)
    (htext : ∀ c ∈ text, isBreak c = false) :
    indented indent false (text ++ rest) = text ++ indented indent false rest := by
  induction text with
  | nil => rfl
  | cons c text ih =>
    have hc : isBreak c = false := htext c (by simp)
    simp [indented, hc, ih fun d hd => htext d (by simp [hd])]

theorem indented_line (indent : Nat) {line : Line} (rest : List Char) (h : IsLine line) :
    indented indent true (line.1 ++ line.2 ++ rest) =
      (inBlock indent line).1 ++ line.2 ++ indented indent true rest := by
  obtain ⟨text, ending⟩ := line
  obtain ⟨htext, ⟨b, rfl, hb⟩, -⟩ := h
  cases text with
  | nil => simp [indented, hb, inBlock]
  | cons c text =>
    have hc : isBreak c = false := htext c (by simp)
    have hrest := indented_text indent text (b :: rest) fun d hd => htext d (by simp [hd])
    simp [indented, hb, hc, inBlock, hrest]

theorem inBlock_snd (indent : Nat) (line : Line) : (inBlock indent line).2 = line.2 := by
  unfold inBlock
  split <;> rfl

theorem isBreak_of_mem_inBlock (indent : Nat) {line : Line} (h : IsLine line) :
    ∀ c ∈ (inBlock indent line).1, isBreak c = false := by
  intro c hc
  unfold inBlock at hc
  split at hc
  · exact h.text c hc
  · rcases List.mem_append.mp hc with hspace | hc
    · rw [List.eq_of_mem_replicate hspace]
      rfl
    · exact h.text c hc

theorem lines_indented {indent : Nat} {body : List Line} (rest : List Char)
    (hbody : ∀ line ∈ body, IsLine line) :
    lines (indented indent true (joined body) ++ rest) =
      body.map (inBlock indent) ++ lines rest := by
  induction body with
  | nil => rfl
  | cons line body ih =>
    have hline := hbody line (by simp)
    rw [joined_cons, indented_line indent _ hline]
    obtain ⟨b, hb, hbreak⟩ := hline.break_
    have hfirst := lines_line (indented indent true (joined body) ++ rest)
      (isBreak_of_mem_inBlock indent hline) hbreak
    rw [ih fun line hmem => hbody line (by simp [hmem]), ← hb, ← inBlock_snd indent line] at hfirst
    simpa [hb] using hfirst

theorem exists_lines {cs : List Char} (hlast : ∀ c ∈ cs.getLast?, isBreak c)
    (hpair : hasPair (· == ' ') isBreak cs = false) :
    ∃ body : List Line, joined body = cs ∧ ∀ line ∈ body, IsLine line := by
  induction cs with
  | nil => exact ⟨[], rfl, by simp⟩
  | cons c rest ih =>
    have hrest : ∀ d ∈ rest.getLast?, isBreak d := by
      cases rest with
      | nil => simp
      | cons d rest => simpa [List.getLast?_cons] using hlast
    obtain ⟨body, hjoined, hbody⟩ := ih hrest (hasPair_of_append [c] hpair)
    by_cases hc : isBreak c
    case pos =>
      refine ⟨([], [c]) :: body, by simpa [joined] using hjoined, fun line hline => ?_⟩
      rcases List.mem_cons.mp hline with rfl | hline
      · exact ⟨by simp, ⟨c, rfl, hc⟩, by simp⟩
      · exact hbody line hline
    case neg =>
      cases body with
      | nil =>
        obtain rfl : rest = [] := hjoined.symm
        exact absurd (hlast c rfl) hc
      | cons first body =>
        obtain ⟨text, ending⟩ := first
        obtain ⟨htext, ⟨b, rfl, hb⟩, hblank⟩ := hbody _ List.mem_cons_self
        have hfirst : IsLine (c :: text, [b]) := by
          refine ⟨by simpa [hc] using htext, ⟨b, rfl, hb⟩, ?_⟩
          cases text with
          | nil =>
            intro hspace
            obtain rfl : c = ' ' := by simpa using hspace
            subst hjoined
            have hpair' : hasPair (· == ' ') isBreak ([] ++ ' ' :: b :: joined body) = false := by
              simpa [joined] using hpair
            simp [not_pair_of_append hpair' rfl] at hb
          | cons d text => simpa [List.getLast?_cons] using hblank
        refine ⟨(c :: text, [b]) :: body, by simpa [joined] using hjoined, fun line hline => ?_⟩
        rcases List.mem_cons.mp hline with rfl | hline
        · exact hfirst
        · exact hbody line (List.mem_cons_of_mem _ hline)

/-- Lines that do not belong to a block with an indent. -/
def EndsBlock (indent : Nat) (more : List Line) : Prop :=
  ∀ afterBlank ending empties,
    blockText false indent afterBlank ending empties more = ([], ending, empties, more)

theorem lines_start (text rest : List Char) (htext : ∀ c ∈ text, isBreak c = false)
    (hne : text ≠ []) :
    ∃ tail ending more, lines (text ++ rest) = (text ++ tail, ending) :: more := by
  induction text with
  | nil => exact absurd rfl hne
  | cons c text ih =>
    have hc : isBreak c = false := htext c (by simp)
    rw [List.cons_append, lines]
    simp only [hc, Bool.false_eq_true, if_false]
    cases text with
    | nil =>
      cases lines ([] ++ rest) with
      | nil => exact ⟨[], [], [], rfl⟩
      | cons line more => exact ⟨line.1, line.2, more, rfl⟩
    | cons d text =>
      obtain ⟨tail, ending, more, hlines⟩ := ih (fun e he => htext e (by simp [he])) (by simp)
      exact ⟨tail, ending, more, by rw [hlines]; rfl⟩

theorem endsBlock_of_follows {column indent : Nat} {rest : List Char} (h : Follows column rest)
    (hindent : column < indent) : EndsBlock indent (lines rest) := by
  intro afterBlank ending empties
  cases h with
  | nothing => rfl
  | @key spaces c rest hspaces hc =>
    have hgap := isGap_of_isKeyLetter hc
    have hspace : c ≠ ' ' := ne_of_class hc rfl
    obtain ⟨tail, ending', more, hlines⟩ :=
      lines_start (List.replicate spaces ' ' ++ [c]) rest
        (by
          intro d hd
          rcases List.mem_append.mp hd with hd | hd
          · rw [List.eq_of_mem_replicate hd]
            rfl
          · rw [List.mem_singleton.mp hd]
            exact isBreak_of_isGap hgap)
        (by simp)
    rw [List.append_assoc, List.singleton_append] at hlines
    rw [hlines, blockText]
    have hempty : isEmptyLine (List.replicate spaces ' ' ++ [c] ++ tail, ending') = false := by
      simp [isEmptyLine, hspace]
    have hrun : lineIndent (List.replicate spaces ' ' ++ [c] ++ tail, ending') = spaces := by
      simp [lineIndent, hspace, List.takeWhile_append_of_pos]
    simp only [hempty, hrun, decide_eq_true (Nat.lt_of_le_of_lt hspaces hindent), Bool.false_and,
      Bool.false_eq_true, if_false, Bool.true_or, if_true]

theorem blockText_empty (indent : Nat) (afterBlank : Bool) (ending empties : List Char) (b : Char)
    (more : List Line) :
    blockText false indent afterBlank ending empties (([], [b]) :: more) =
      blockText false indent afterBlank ending (empties ++ [b]) more := by
  simp [blockText, isEmptyLine]

theorem blockText_line {indent : Nat} {line : Line} (afterBlank : Bool)
    (ending empties : List Char) (more : List Line) (h : IsLine line) (hne : line.1 ≠ []) :
    ∃ blank, blockText false indent afterBlank ending empties (inBlock indent line :: more) =
      ((ending ++ empties ++ line.1) ++ (blockText false indent blank line.2 [] more).1,
        (blockText false indent blank line.2 [] more).2) := by
  obtain ⟨text, ending'⟩ := line
  obtain ⟨-, ⟨b, rfl, hb⟩, hblank⟩ := h
  have hempty : isEmptyLine (List.replicate indent ' ' ++ text, [b]) = false := by
    obtain ⟨start, c, rfl⟩ := (List.eq_nil_or_concat text).resolve_left hne
    have hc : c ≠ ' ' := by simpa using hblank
    simp [isEmptyLine, hc]
  have hrun : indent ≤ lineIndent (List.replicate indent ' ' ++ text, [b]) := by
    simp [lineIndent, List.takeWhile_append_of_pos]
  refine ⟨(text.head?.map Text.isSpaceOrTab).getD false, ?_⟩
  rw [inBlock, if_neg hne, blockText]
  simp [hempty, Nat.not_lt.mpr hrun]

/-- The text of a block falls into what stands before its last break, that break, and the empty
lines after it. -/
theorem blockText_body {indent : Nat} {body more : List Line} (afterBlank : Bool)
    (ending empties : List Char) (hbody : ∀ line ∈ body, IsLine line)
    (hmore : EndsBlock indent more) :
    ∃ text last after,
      blockText false indent afterBlank ending empties (body.map (inBlock indent) ++ more) =
        (text, last, after, more) ∧
      text ++ last ++ after = ending ++ empties ++ joined body ∧
      (body = [] → last = ending ∧ after = empties) ∧
      ∀ line ∈ body.getLast?, line.1 ≠ [] → last = line.2 ∧ after = [] := by
  induction body generalizing afterBlank ending empties with
  | nil => exact ⟨[], ending, empties, hmore .., by simp [joined], by simp, by simp⟩
  | cons line body ih =>
    have hline := hbody line (by simp)
    have htail : ∀ l ∈ body, IsLine l := fun l hl => hbody l (by simp [hl])
    by_cases hne : line.1 = []
    case pos =>
      obtain ⟨first, ending'⟩ := line
      obtain rfl : first = [] := hne
      obtain ⟨b, rfl, hb⟩ := hline.break_
      obtain ⟨text, last, after, hread, htext, hnone, hlast⟩ :=
        ih afterBlank ending (empties ++ [b]) htail
      refine ⟨text, last, after, ?_, by simpa [joined] using htext, by simp, ?_⟩
      · rw [List.map_cons, List.cons_append, ← hread]
        exact blockText_empty ..
      · cases body with
        | nil => simp
        | cons l body => simpa [List.getLast?_cons] using hlast
    case neg =>
      obtain ⟨blank, hstep⟩ :=
        blockText_line afterBlank ending empties (body.map (inBlock indent) ++ more) hline hne
      obtain ⟨text, last, after, hread, htext, hnone, hlast⟩ := ih blank line.2 [] htail
      refine ⟨ending ++ empties ++ line.1 ++ text, last, after, ?_, ?_, by simp, ?_⟩
      · rw [List.map_cons, List.cons_append, hstep, hread]
      · rw [List.append_nil] at htext
        rw [joined_cons]
        simp only [List.append_assoc] at htext ⊢
        rw [htext]
      · cases body with
        | nil => simpa using fun _ => hnone rfl
        | cons l body => simpa [List.getLast?_cons] using hlast

/-- What the signs of a text say about the breaks at its end. -/
def chompOf (cs : List Char) : Chomp :=
  match cs.reverse with
  | [] => .strip
  | [c] => if isBreak c then .keep else .strip
  | c :: d :: _ => if !isBreak c then .strip else if isBreak d then .keep else .clip

def stepOf (cs : List Char) : Nat := if (Layout.ofText cs).leadingGap then 2 else 0

def chompSigns : Chomp → List Char
  | .clip => []
  | .strip => ['-']
  | .keep => ['+']

theorem blockSigns_eq (cs : List Char) :
    blockSigns cs =
      (if (Layout.ofText cs).leadingGap then ['2'] else []) ++ chompSigns (chompOf cs) := by
  unfold blockSigns chompOf
  match cs.reverse with
  | [] => rfl
  | [c] => cases hc : isBreak c <;> simp [hc, chompSigns]
  | c :: d :: _ => cases hc : isBreak c <;> cases hd : isBreak d <;> simp [hc, hd, chompSigns]

theorem blockSigns?_blockSigns (cs : List Char) :
    blockSigns? (blockSigns cs) = some (chompOf cs, stepOf cs) := by
  rw [blockSigns_eq, stepOf]
  cases (Layout.ofText cs).leadingGap <;> cases chompOf cs <;> rfl

theorem isBlockSign_of_mem_blockSigns (cs : List Char) : ∀ c ∈ blockSigns cs, isBlockSign c := by
  rw [blockSigns_eq]
  cases (Layout.ofText cs).leadingGap <;> cases chompOf cs <;> exact List.all_eq_true.mp rfl

/-- The text of a block with a break at its end. -/
def closed (cs : List Char) : List Char :=
  if (Layout.ofText cs).trailingBreak then cs else cs ++ ['\n']

theorem indented_append_break (indent : Nat) (fresh : Bool) (cs : List Char) :
    indented indent fresh (cs ++ ['\n']) = indented indent fresh cs ++ ['\n'] := by
  have hbreak : isBreak '\n' := rfl
  induction cs generalizing fresh with
  | nil => simp [indented, hbreak]
  | cons c cs ih =>
    rw [List.cons_append, indented, indented]
    split <;> simp [ih]

theorem indented_closed (indent : Nat) (cs : List Char) :
    indented indent true cs ++ (if (Layout.ofText cs).trailingBreak then [] else ['\n']) =
      indented indent true (closed cs) := by
  unfold closed
  split
  · simp
  · rw [indented_append_break]

/-- A text that is written as a block. -/
structure IsBlockText (cs : List Char) : Prop where
  nonempty : cs ≠ []
  printable : ∀ c ∈ cs, isPrintable c
  trailing : cs.getLast? ≠ some ' '
  pair : hasPair (· == ' ') isBreak cs = false

theorem of_styleOf_block {cs : List Char} (h : styleOf cs = .block) : IsBlockText cs := by
  have hsuits := suits_styleOf cs
  rw [h] at hsuits
  obtain ⟨htrailing, hpair, hspecial⟩ := hsuits
  refine ⟨?_, isPrintable_of_special hspecial, by simpa [Layout.ofText] using htrailing, hpair⟩
  rintro rfl
  exact absurd h (by decide)

theorem hasPair_append_singleton {first second : Char → Bool} {cs : List Char} (b : Char)
    (h : hasPair first second cs = false) (hlast : ∀ c ∈ cs.getLast?, first c = false) :
    hasPair first second (cs ++ [b]) = false := by
  induction cs with
  | nil => rfl
  | cons c cs ih =>
    cases cs with
    | nil =>
      have hc : first c = false := hlast c rfl
      simp [hasPair, hc]
    | cons d cs =>
      rw [hasPair, Bool.or_eq_false_iff] at h
      rw [List.cons_append, List.cons_append, hasPair, h.1, Bool.false_or]
      exact ih h.2 (by simpa [List.getLast?_cons] using hlast)

theorem exists_body {cs : List Char} (h : IsBlockText cs) :
    ∃ body : List Line, joined body = closed cs ∧ ∀ line ∈ body, IsLine line := by
  have hspace : ∀ c ∈ cs.getLast?, (c == ' ') = false := by
    intro c hc
    rw [beq_eq_false_iff_ne]
    rintro rfl
    exact h.trailing hc
  refine exists_lines ?_ ?_ <;> unfold closed
  · split
    case isTrue hbreak =>
      intro c hc
      simpa [Layout.ofText, Option.mem_def.mp hc] using hbreak
    case isFalse => simp [isBreak]
  · split
    case isTrue => exact h.pair
    case isFalse => exact hasPair_append_singleton '\n' h.pair hspace

theorem exists_last_line {body : List Line} {start : List Char} {c b : Char}
    (hbody : ∀ line ∈ body, IsLine line) (hc : isBreak c = false)
    (h : joined body = start ++ [c, b]) :
    ∃ line ∈ body.getLast?, line.1 ≠ [] ∧ line.2 = [b] := by
  rcases List.eq_nil_or_concat body with rfl | ⟨front, line, rfl⟩
  case inl => simp [joined] at h
  case inr =>
    rw [List.concat_eq_append] at h hbody ⊢
    obtain ⟨b', hb', -⟩ := (hbody line (by simp)).break_
    have hsplit : joined front ++ line.1 ++ [b'] = start ++ [c] ++ [b] := by
      simpa [joined, hb'] using h
    obtain ⟨hfront, hlast⟩ := List.append_inj' hsplit rfl
    obtain rfl : b' = b := by simpa using hlast
    refine ⟨line, by simp, fun hempty => ?_, hb'⟩
    rw [hempty, List.append_nil] at hfront
    rcases List.eq_nil_or_concat front with rfl | ⟨front, before, rfl⟩
    · simp [joined] at hfront
    · rw [List.concat_eq_append] at hfront hbody
      obtain ⟨d, hd, hbreak⟩ := (hbody before (by simp)).break_
      have hsplit : joined front ++ before.1 ++ [d] = start ++ [c] := by
        simpa [joined, hd] using hfront
      obtain rfl : d = c := by simpa using (List.append_inj' hsplit rfl).2
      simp [hc] at hbreak

theorem text_of_chomp {cs text last after : List Char} {body : List Line} (h : IsBlockText cs)
    (hbody : ∀ line ∈ body, IsLine line) (hjoined : joined body = closed cs)
    (htext : text ++ last ++ after = joined body)
    (hlast : ∀ line ∈ body.getLast?, line.1 ≠ [] → last = line.2 ∧ after = []) :
    (match chompOf cs with
      | .clip => text ++ last
      | .strip => text
      | .keep => text ++ last ++ after) = cs := by
  -- Where the character before the last break is no break, that break ends the last line.
  have hend (start : List Char) {c b : Char} (hc : isBreak c = false)
      (hcs : closed cs = start ++ [c, b]) : last = [b] ∧ after = [] := by
    obtain ⟨line, hline, hne, hbreak⟩ := exists_last_line hbody hc (hjoined.trans hcs)
    rw [← hbreak]
    exact hlast line hline hne
  rw [hjoined] at htext
  obtain ⟨start, c, rfl⟩ := (List.eq_nil_or_concat cs).resolve_left h.nonempty
  rw [List.concat_eq_append] at htext hend ⊢
  by_cases hc : isBreak c
  case neg =>
    rw [Bool.not_eq_true] at hc
    have hchomp : chompOf (start ++ [c]) = .strip := by
      simp only [chompOf, List.reverse_append, List.reverse_singleton, List.singleton_append]
      cases start.reverse <;> simp [hc]
    have hclosed : closed (start ++ [c]) = start ++ [c] ++ ['\n'] := by
      simp [closed, Layout.ofText, hc]
    obtain ⟨rfl, rfl⟩ := hend start hc (b := '\n') (by simpa using hclosed)
    rw [hclosed, List.append_nil] at htext
    rw [hchomp]
    exact (List.append_inj' htext rfl).1
  case pos =>
    have hclosed : closed (start ++ [c]) = start ++ [c] := by
      simp [closed, Layout.ofText, hc]
    rw [hclosed] at htext
    rcases List.eq_nil_or_concat start with rfl | ⟨start, d, rfl⟩
    case inl =>
      have hchomp : chompOf ([] ++ [c]) = .keep := by simp [chompOf, hc]
      rw [hchomp]
      exact htext
    case inr =>
      rw [List.concat_eq_append] at htext hend hclosed ⊢
      by_cases hd : isBreak d
      case pos =>
        have hchomp : chompOf (start ++ [d] ++ [c]) = .keep := by simp [chompOf, hc, hd]
        rw [hchomp]
        exact htext
      case neg =>
        rw [Bool.not_eq_true] at hd
        have hchomp : chompOf (start ++ [d] ++ [c]) = .clip := by simp [chompOf, hc, hd]
        obtain ⟨-, rfl⟩ := hend start hd (b := c) (by simpa using hclosed)
        rw [hchomp]
        simpa using htext

theorem exists_first_line {cs : List Char} {body : List Line} (h : IsBlockText cs)
    (hbody : ∀ line ∈ body, IsLine line) (hjoined : joined body = closed cs)
    (hlead : (Layout.ofText cs).leadingGap = false) :
    ∃ c text ending more, body = (c :: text, ending) :: more ∧ c ≠ ' ' ∧ c ≠ '\t' := by
  obtain ⟨c, tail, rfl⟩ := List.exists_cons_of_ne_nil h.nonempty
  simp only [Layout.ofText, List.head?_cons, Option.map_some, Option.getD_some,
    Bool.or_eq_false_iff, beq_eq_false_iff_ne] at hlead
  obtain ⟨hspace, hbreak⟩ := hlead
  have hhead : (joined body).head? = some c := by
    rw [hjoined, closed]
    split <;> simp
  cases body with
  | nil => simp [joined] at hhead
  | cons line more =>
    obtain ⟨text, ending⟩ := line
    obtain ⟨b, rfl, hb⟩ := (hbody _ List.mem_cons_self).break_
    cases text with
    | nil =>
      obtain rfl : b = c := by simpa [joined] using hhead
      simp [hbreak] at hb
    | cons d text =>
      obtain rfl : d = c := by simpa [joined] using hhead
      refine ⟨d, text, [b], more, rfl, hspace, ?_⟩
      rintro rfl
      exact absurd (h.printable '\t' (by simp)) (by decide)

/-- The indent is that of the first line if it is not named, and it is named if the first line does
not show it. -/
theorem column_of_body (column : Nat) {cs : List Char} {body : List Line} (more : List Line)
    (h : IsBlockText cs) (hbody : ∀ line ∈ body, IsLine line) (hjoined : joined body = closed cs) :
    (if stepOf cs = 0 then
        findIndent? (column + 1) (body.map (inBlock (column + 2)) ++ more)
      else some (column + 1 - 1 + stepOf cs)) =
      some (column + 2) := by
  cases hlead : (Layout.ofText cs).leadingGap with
  | true => simp [stepOf, hlead]
  | false =>
    obtain ⟨c, text, ending, others, rfl, hspace, htab⟩ := exists_first_line h hbody hjoined hlead
    have hline : inBlock (column + 2) (c :: text, ending) =
        (List.replicate (column + 2) ' ' ++ c :: text, ending) := by
      simp [inBlock]
    have hempty : isEmptyLine (List.replicate (column + 2) ' ' ++ c :: text, ending) = false := by
      simp [isEmptyLine, hspace]
    have hrun : lineIndent (List.replicate (column + 2) ' ' ++ c :: text, ending) = column + 2 := by
      simp [lineIndent, hspace, List.takeWhile_append_of_pos]
    rw [stepOf, hlead, List.map_cons, List.cons_append, hline, findIndent?]
    simp [hempty, hrun, htab]

theorem block?_blockSigns {column : Nat} {cs rest : List Char} (h : IsBlockText cs)
    (hrest : Follows column rest) :
    block? false (column + 1)
        (blockSigns cs ++ '\n' :: (indented (column + 2) true cs ++
          (if (Layout.ofText cs).trailingBreak then [] else ['\n']) ++ rest)) =
      some (cs, ⟨0, true, rest⟩) := by
  obtain ⟨body, hjoined, hbody⟩ := exists_body h
  have hends (tail : List Char) : ∀ c ∈ ('\n' :: tail).head?, isBlockSign c = false := by
    simp [isBlockSign]
  have hsigns (tail : List Char) :=
    takeWhile_append_of_ends (isBlockSign_of_mem_blockSigns cs) (hends tail)
  have hlines : lines (indented (column + 2) true cs ++
      (if (Layout.ofText cs).trailingBreak then [] else ['\n']) ++ rest) =
      body.map (inBlock (column + 2)) ++ lines rest := by
    rw [indented_closed, ← hjoined]
    exact lines_indented rest hbody
  have hafter (tail : List Char) :
      lines (afterComment ('\n' :: tail)) = ([], ['\n']) :: lines tail := rfl
  have hmore := endsBlock_of_follows hrest (show column < column + 2 by omega)
  obtain ⟨text, last, after, hread, htext, -, hlast⟩ :=
    blockText_body false [] [] hbody hmore
  have hcs := text_of_chomp h hbody hjoined (by simpa using htext) hlast
  have hcolumn := column_of_body column (lines rest) h hbody hjoined
  simp only [block?, (hsigns _).1, (hsigns _).2, blockSigns?_blockSigns, hafter, hlines, hcolumn,
    hread]
  have hrestored : (lines rest).flatMap (fun line => line.1 ++ line.2) = rest := joined_lines rest
  rw [hrestored]
  exact congrArg (fun text => some (text, Cursor.mk 0 true rest)) hcs

end PocketCalculator.Proofs.YamlBlocks
