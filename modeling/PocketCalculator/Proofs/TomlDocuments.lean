import PocketCalculator.Proofs.PlainDocuments
import PocketCalculator.Proofs.TomlStrings

namespace PocketCalculator.Proofs.TomlDocuments

open PocketCalculator.Settings
open PocketCalculator.Settings.Toml
open PocketCalculator.Proofs.Characters
open PocketCalculator.Proofs.PlainDocuments
open PocketCalculator.Proofs.TomlStrings
open PocketCalculator.Proofs.WrittenNumbers

theorem bareRun_of_line {run : List Char} (rest : List Char) (h : ∀ c ∈ run, isBare c) :
    bareRun (run ++ '\n' :: rest) = run := by
  have hends : ∀ c ∈ ('\n' :: rest).head?, isBare c = false := by simp [isBare]
  have hrun := takeWhile_append_of_ends h hends
  simp [bareRun, hrun.1, hrun.2]

theorem value?_cons (fuel depth : Nat) {c : Char} (rest : List Char) (hlist : c ≠ '[')
    (htable : c ≠ '{') :
    value? (fuel + 1) depth (c :: rest) =
      if c = '"' ∨ c = '\'' then
        (string? (c :: rest)).map fun (s, rest) => (.scalar (.text (String.ofList s)), rest)
      else
        (bareValue? (bareRun (c :: rest))).map fun v =>
          (v, (c :: rest).drop (bareRun (c :: rest)).length) := by
  unfold value?
  split
  case h_1 heq => exact absurd (List.cons.inj heq).1 hlist
  case h_2 heq => exact absurd (List.cons.inj heq).1 htable
  case h_3 => simp

theorem value?_bare (fuel depth : Nat) {run : List Char} (rest : List Char) {v : Value}
    (hbare : ∀ c ∈ run, isBare c) (hne : run ≠ []) (hv : bareValue? run = some v) :
    value? (fuel + 1) depth (run ++ '\n' :: rest) = some (v, '\n' :: rest) := by
  have hrun := bareRun_of_line rest hbare
  obtain ⟨c, cs, rfl⟩ := List.exists_cons_of_ne_nil hne
  have hfirst := hbare c (by simp)
  have hc (d : Char) (hd : isBare d = false) : c ≠ d := ne_of_class hfirst hd
  rw [List.cons_append] at hrun ⊢
  have hquote : ¬(c = '"' ∨ c = '\'') := by simp [hc '"' rfl, hc '\'' rfl]
  rw [value?_cons fuel depth _ (hc '[' rfl) (hc '{' rfl), if_neg hquote, hrun, hv,
    Option.map_some, ← List.cons_append, List.drop_left]

theorem ungroup_digits {digits : List Char} (afterDigit : Bool) (h : ∀ c ∈ digits, c.isDigit) :
    ungroup Char.isDigit afterDigit digits = some digits := by
  induction digits generalizing afterDigit with
  | nil => rfl
  | cons c digits ih =>
    have hc : c ≠ '_' := ne_of_class (h c (by simp)) rfl
    simp [ungroup, hc, ih _ fun d hd => h d (by simp [hd])]

theorem isInteger_of_lt {n : Nat} (h : n < Nat.pow 2 63) :
    -Int.pow 2 63 ≤ (n : Int) ∧ (n : Int) < Int.pow 2 63 := by
  have hpow : Int.pow 2 63 = 9223372036854775808 := rfl
  have hn : n < 9223372036854775808 := h
  omega

theorem integerOf?_of_lt {n : Nat} (h : n < Nat.pow 2 63) :
    integerOf? n = some (.scalar (.integer n)) := by
  rw [integerOf?, if_pos (isInteger_of_lt h)]

theorem decimal?_toDigits {n : Nat} (h : n < Nat.pow 2 63) :
    decimal? (Nat.toDigits 10 n) = some (.scalar (.integer n)) := by
  have hempty : (Nat.toDigits 10 n).isEmpty = false := by simp [Nat.toDigits_ne_nil]
  simp only [decimal?, ungroup_digits false (isDigit_toDigits n), Option.bind_some,
    ofText?_toDigits, hempty, leadingZero_toDigits, Nat.ofDigitChars_ten_toDigits,
    integerOf?_of_lt h, Bool.false_and, Bool.or_self, Option.isSome_none, Bool.false_eq_true,
    if_false]

theorem isDateTime_digits {digits : List Char} (h : ∀ c ∈ digits, c.isDigit) :
    isDateTime digits = false := by
  have hdate : afterDate? digits = none := by
    unfold afterDate?
    split
    · exact absurd (h '-' (by simp)) (by decide)
    · rfl
  have htime : afterTime? digits = none := by
    unfold afterTime?
    split
    · exact absurd (h ':' (by simp)) (by decide)
    · rfl
  simp [isDateTime, hdate, htime]

theorem bareValue?_toDigits {n : Nat} (h : n < Nat.pow 2 63) :
    bareValue? (Nat.toDigits 10 n) = some (.scalar (.integer n)) := by
  have hdigits := isDigit_toDigits n
  have hword (word : List Char) {c : Char} (hmem : c ∈ word) (hc : c.isDigit = false) :
      Nat.toDigits 10 n ≠ word := by
    rintro rfl
    simp [hdigits c hmem] at hc
  unfold bareValue?
  rw [if_neg (hword _ (c := 't') (by decide) rfl), if_neg (hword _ (c := 'f') (by decide) rfl),
    isDateTime_digits hdigits, splitSign_of_digits hdigits]
  simp only [Bool.false_eq_true, if_false, hword "inf".toList (c := 'i') (by decide) rfl,
    hword "nan".toList (c := 'n') (by decide) rfl, or_self]
  split
  case h_4 => exact decimal?_toDigits h
  case h_1 heq => exact absurd heq (hword _ (c := 'x') (by simp) rfl)
  case h_2 heq => exact absurd heq (hword _ (c := 'o') (by simp) rfl)
  case h_3 heq => exact absurd heq (hword _ (c := 'b') (by simp) rfl)

theorem scalarText?_integer {n : Nat} (h : n < Nat.pow 2 63) :
    scalarText? (.integer n) = some (Nat.toDigits 10 n) := by
  rw [scalarText?, if_pos (isInteger_of_lt h), toList_repr]

theorem value?_scalarText (fuel depth : Nat) {s : Scalar} {text : List Char} (rest : List Char)
    (hs : IsPlainScalar s) (hkeeps : keeps .toml s) (h : scalarText? s = some text) :
    value? (fuel + 1) depth (text ++ '\n' :: rest) = some (.scalar s, '\n' :: rest) := by
  cases s with
  | text s =>
    cases h
    obtain ⟨c, tail, htext, hc⟩ := exists_quoted s
    have hstring := string?_quoted s rest
    rw [htext, List.cons_append] at hstring ⊢
    rw [value?_cons _ _ _ (by rcases hc with rfl | rfl <;> decide)
      (by rcases hc with rfl | rfl <;> decide), if_pos hc, hstring]
    simp only [Option.map_some, String.ofList_toList]
  | truth b =>
    cases h
    cases b <;> exact value?_bare _ _ _ (List.all_eq_true.mp rfl) (by decide) rfl
  | integer n =>
    obtain ⟨n, rfl, hn⟩ := hs n rfl
    cases (scalarText?_integer hn).symm.trans h
    exact value?_bare _ _ _ (fun c hc => by
      simp [isBare, isAlphanum_of_isDigit (isDigit_toDigits n c hc)])
      Nat.toDigits_ne_nil (bareValue?_toDigits hn)
  | empty => simp [keeps] at hkeeps

theorem exists_scalarText {s : Scalar} (hs : IsPlainScalar s) (hkeeps : keeps .toml s) :
    ∃ c rest, scalarText? s = some (c :: rest) ∧ Text.isSpaceOrTab c = false ∧ '\r' ∉ c :: rest := by
  cases s with
  | text s =>
    obtain ⟨c, tail, htext, hc⟩ := exists_quoted s
    have hreturn := return_not_mem_quoted s
    rw [htext] at hreturn
    exact ⟨c, tail, congrArg some htext, by rcases hc with rfl | rfl <;> rfl, hreturn⟩
  | truth b => cases b <;> exact ⟨_, _, rfl, rfl, by decide⟩
  | integer n =>
    obtain ⟨n, rfl, hn⟩ := hs n rfl
    obtain ⟨c, digits, hdigits, hdigit⟩ := exists_toDigits n
    refine ⟨c, digits, by rw [scalarText?_integer hn, hdigits], ?_, fun hmem => ?_⟩
    · have hc (d : Char) (hd : d.isDigit = false) : c ≠ d := ne_of_class hdigit hd
      simp [Text.isSpaceOrTab, hc ' ' rfl, hc '\t' rfl]
    · exact absurd (isDigit_toDigits n '\r' (by rwa [hdigits])) (by decide)
  | empty => simp [keeps] at hkeeps

theorem key_char {c : Char} (h : isKeyLetter c) :
    isKeyChar c ∧ Text.isSpaceOrTab c = false ∧ c ≠ '[' ∧ c ≠ '#' ∧ c ≠ '\n' ∧ c ≠ '\r' := by
  have hne (d : Char) (hd : isKeyLetter d = false) : c ≠ d := ne_of_class h hd
  refine ⟨?_, ?_, hne '[' rfl, hne '#' rfl, hne '\n' rfl, hne '\r' rfl⟩
  · simp only [isKeyLetter, Bool.or_eq_true] at h
    rcases h with h | h
    · simp [isKeyChar, isAlphanum_of_isLower h]
    · simp [isKeyChar, h]
  · simp [Text.isSpaceOrTab, hne ' ' rfl, hne '\t' rfl]

theorem skipBlanks_cons {c : Char} (rest : List Char) (h : Text.isSpaceOrTab c = false) :
    skipBlanks (c :: rest) = c :: rest := by
  simp [skipBlanks, h]

theorem keyPath?_key (fuel : Nat) {key : String} (hkey : IsKey key) (blanks : List Char) {c : Char}
    (rest : List Char) (hblanks : ∀ b ∈ blanks, Text.isSpaceOrTab b)
    (hc : isKeyChar c = false ∧ Text.isSpaceOrTab c = false ∧ c ≠ '.') :
    keyPath? (fuel + 1) (key.toList ++ (blanks ++ c :: rest)) = some ([key], c :: rest) := by
  have hletters : ∀ c ∈ key.toList, isKeyChar c := fun c hc => (key_char (hkey.letters c hc)).1
  have hends : ∀ d ∈ (blanks ++ c :: rest).head?, isKeyChar d = false := by
    cases blanks with
    | nil => simpa using hc.1
    | cons b blanks =>
      have hb := hblanks b (by simp)
      intro d hd
      simp only [List.cons_append, List.head?_cons, Option.mem_some_iff] at hd
      subst hd
      simp only [Text.isSpaceOrTab, Bool.or_eq_true, beq_iff_eq] at hb
      rcases hb with rfl | rfl <;> rfl
  have hrun := takeWhile_append_of_ends hletters hends
  have hskip : skipBlanks (key.toList ++ (blanks ++ c :: rest)) =
      key.toList ++ (blanks ++ c :: rest) := by
    obtain ⟨d, ds, hcons, hd⟩ := exists_key hkey
    rw [hcons, List.cons_append, skipBlanks_cons _ (key_char hd).2.1]
  have hafter : skipBlanks (blanks ++ c :: rest) = c :: rest := by
    rw [skipBlanks, List.dropWhile_append_of_pos hblanks]
    exact skipBlanks_cons rest hc.2.1
  have hpart : keyPart? (key.toList ++ (blanks ++ c :: rest)) =
      some (key, blanks ++ c :: rest) := by
    simp [keyPart?, hrun.1, hrun.2, hkey.nonempty]
  simp only [keyPath?, hskip, hpart, hafter]
  split
  · rename_i heq
    exact absurd (List.cons.inj heq).1 hc.2.2
  · rfl

def leaves (entries : Table) : Entries := entries.map fun (key, v) => (key, .leaf v)

section

variable {key : String} {entries : Entries} {node : Node}

theorem get?_eq_none (h : key ∉ entries.map (·.1)) : entries.get? key = none := by
  rw [Entries.get?, List.find?_eq_none.mpr fun entry hentry => ?_, Option.map_none]
  simp only [beq_iff_eq]
  rintro rfl
  exact h (List.mem_map_of_mem hentry)

theorem get?_last (h : key ∉ entries.map (·.1)) :
    Entries.get? (entries ++ [(key, node)]) key = some node := by
  have hnone := get?_eq_none h
  rw [Entries.get?, Option.map_eq_none_iff] at hnone
  simp [Entries.get?, hnone]

theorem put_eq_append (h : key ∉ entries.map (·.1)) :
    entries.put key node = entries ++ [(key, node)] := by
  induction entries with
  | nil => rfl
  | cons entry rest ih =>
    simp only [List.map_cons, List.mem_cons, not_or] at h
    rw [Entries.put, if_neg (Ne.symm h.1), ih h.2, List.cons_append]

theorem put_last {old : Node} (h : key ∉ entries.map (·.1)) :
    Entries.put key node (entries ++ [(key, old)]) = entries ++ [(key, node)] := by
  induction entries with
  | nil => simp [Entries.put]
  | cons entry rest ih =>
    simp only [List.map_cons, List.mem_cons, not_or] at h
    rw [List.cons_append, Entries.put, if_neg (Ne.symm h.1), ih h.2, List.cons_append]

theorem add_entry (v : Value) (h : key ∉ entries.map (·.1)) :
    Entries.add [key] v .header entries = some (entries ++ [(key, .leaf v)]) := by
  simp [Entries.add, Entries.change, get?_eq_none h, put_eq_append h]

end

@[simp] theorem leaves_nil : leaves [] = [] := rfl

@[simp] theorem leaves_append (entries more : Table) :
    leaves (entries ++ more) = leaves entries ++ leaves more := by
  simp [leaves]

@[simp] theorem leaves_singleton (key : String) (v : Value) :
    leaves [(key, v)] = [(key, .leaf v)] := rfl

theorem keys_leaves (entries : Table) : (leaves entries).map (·.1) = entries.map (·.1) := by
  simp [leaves]

/-- Drafts that differ in the entries of the open table only. -/
def Grows (draft : Table → Draft) : Prop :=
  ∀ entries key v, key ∉ entries.map (·.1) →
    (draft entries).add [key] v = some (draft (entries ++ [(key, v)]))

theorem grows_top : Grows fun entries => ⟨leaves entries, []⟩ := by
  intro entries key v h
  rw [← keys_leaves] at h
  simp [Draft.add, Entries.change, add_entry v h]

theorem grows_section {top : Entries} {name : String} (hname : name ∉ top.map (·.1)) :
    Grows fun entries => ⟨top ++ [(name, .table .header (leaves entries))], [name]⟩ := by
  intro entries key v h
  rw [← keys_leaves] at h
  simp [Draft.add, Entries.change, get?_last hname, put_last hname, add_entry v h]

theorem openTable_top {entries : Table} {name : String} (hname : name ∉ entries.map (·.1)) :
    Draft.openTable ⟨leaves entries, []⟩ [name] =
      some ⟨leaves entries ++ [(name, .table .header (leaves []))], [name]⟩ := by
  rw [← keys_leaves] at hname
  simp [Draft.openTable, Entries.addTable, Entries.change, get?_eq_none hname, put_eq_append hname]

theorem entriesValue_append (entries more : Entries) :
    Node.entriesValue (entries ++ more) = Node.entriesValue entries ++ Node.entriesValue more := by
  induction entries with
  | nil => simp [Node.entriesValue]
  | cons entry rest ih => simp [Node.entriesValue, ih]

theorem entriesValue_leaves (entries : Table) : Node.entriesValue (leaves entries) = entries := by
  induction entries with
  | nil => rfl
  | cons entry rest ih =>
    simp only [leaves, List.map_cons, Node.entriesValue, Node.entryValue, Node.toValue] at ih ⊢
    rw [ih]

theorem skipGap_cons {c : Char} (rest : List Char) (hbreak : c ≠ '\n') (hcomment : c ≠ '#')
    (hblank : Text.isSpaceOrTab c = false) : skipGap false (c :: rest) = c :: rest := by
  simp [skipGap, hbreak, hcomment, hblank]

theorem readLines_cons (fuel : Nat) (draft : Draft) {c : Char} (rest : List Char)
    (hc : isKeyLetter c) :
    readLines (fuel + 1) draft (c :: rest) =
      match entry? (c :: rest) with
      | some (path, v, rest) =>
        match draft.add path v, afterLine? rest with
        | some draft, some rest => readLines fuel draft rest
        | _, _ => none
      | none => none := by
  obtain ⟨-, hblank, hheader, hcomment, hbreak, -⟩ := key_char hc
  simp only [readLines, skipGap_cons rest hbreak hcomment hblank]
  split
  case h_1 heq => cases heq
  case h_2 heq => exact absurd (List.cons.inj heq).1 hheader
  case h_3 heq => exact absurd (List.cons.inj heq).1 hheader
  case h_4 => rfl

/-- A line with an entry, and what follows it. -/
def line (key : String) (text rest : List Char) : List Char :=
  key.toList ++ ([' '] ++ '=' :: ' ' :: (text ++ '\n' :: rest))

theorem line_append (key : String) (text rest more : List Char) :
    line key text rest ++ more = line key text (rest ++ more) := by
  simp [line]

theorem readLines_line (fuel : Nat) {draft next : Draft} {key : String} {s : Scalar}
    {text : List Char} (rest : List Char) (hkey : IsKey key) (hs : IsPlainScalar s)
    (hkeeps : keeps .toml s) (htext : scalarText? s = some text)
    (hnext : draft.add [key] (.scalar s) = some next) :
    readLines (fuel + 1) draft (line key text rest) = readLines fuel next rest := by
  have hvalue :=
    value?_scalarText (' ' :: (text ++ '\n' :: rest)).length maxDepth rest hs hkeeps htext
  have hskip : skipBlanks (' ' :: (text ++ '\n' :: rest)) = text ++ '\n' :: rest := by
    obtain ⟨c, tail, hcons, hc, -⟩ := exists_scalarText hs hkeeps
    obtain rfl : text = c :: tail := Option.some.inj (htext.symm.trans hcons)
    exact (List.dropWhile_cons_of_pos rfl).trans (skipBlanks_cons _ hc)
  have hpath (fuel : Nat) := keyPath?_key fuel hkey [' '] (c := '=')
    (' ' :: (text ++ '\n' :: rest)) (by simp [Text.isSpaceOrTab]) (by decide)
  obtain ⟨d, ds, hfirst, hd⟩ := exists_key hkey
  rw [line]
  rw [hfirst, List.cons_append] at hpath ⊢
  have hentry : entry? (d :: (ds ++ ([' '] ++ '=' :: ' ' :: (text ++ '\n' :: rest)))) =
      some ([key], .scalar s, '\n' :: rest) := by
    unfold entry?
    rw [List.length_cons, hpath]
    simp only [hskip, hvalue, Option.map_some]
  rw [readLines_cons fuel draft _ hd, hentry]
  simp only [hnext]
  rfl

theorem entryLines?_filter (entries : List (String × Scalar)) :
    entryLines? (entries.filter (keeps .toml ·.2)) = entryLines? entries := by
  induction entries with
  | nil => rfl
  | cons entry rest ih =>
    obtain ⟨key, s⟩ := entry
    cases s with
    | empty =>
      rw [List.filter_cons_of_neg (by simp [keeps]), ih]
      rfl
    | _ =>
      rw [List.filter_cons_of_pos (by simp [keeps])]
      simp only [entryLines?, ih]

theorem entryLines?_cons (key : String) {s : Scalar} {text lines : List Char}
    {rest : List (String × Scalar)} (hkeeps : keeps .toml s) (htext : scalarText? s = some text)
    (hlines : entryLines? rest = some lines) :
    entryLines? ((key, s) :: rest) = some (line key text lines) := by
  cases s <;> simp_all [entryLines?, keeps, line]

/-- The entries of a table that are written. -/
structure AreWritten (entries : List (String × Scalar)) : Prop where
  keys : ∀ entry ∈ entries, IsKey entry.1
  scalars : ∀ entry ∈ entries, IsPlainScalar entry.2
  kept : ∀ entry ∈ entries, keeps .toml entry.2

theorem AreWritten.tail {entry : String × Scalar} {rest : List (String × Scalar)}
    (h : AreWritten (entry :: rest)) : AreWritten rest where
  keys := fun e he => h.keys e (by simp [he])
  scalars := fun e he => h.scalars e (by simp [he])
  kept := fun e he => h.kept e (by simp [he])

theorem exists_entryLines {entries : List (String × Scalar)} (h : AreWritten entries) :
    ∃ text, entryLines? entries = some text ∧ (∀ c ∈ text.head?, isKeyLetter c) ∧
      '\r' ∉ text ∧ entries.length ≤ text.length := by
  induction entries with
  | nil => exact ⟨[], rfl, by simp, by simp, by simp⟩
  | cons entry rest ih =>
    obtain ⟨lines, hlines, -, hreturn, hlength⟩ := ih h.tail
    obtain ⟨c, tail, htext, -, htail⟩ :=
      exists_scalarText (h.scalars entry (by simp)) (h.kept entry (by simp))
    have hkey : '\r' ∉ entry.1.toList := fun hmem =>
      absurd ((h.keys entry (by simp)).letters _ hmem) (by decide)
    refine ⟨_, entryLines?_cons entry.1 (h.kept entry (by simp)) htext hlines, ?_, ?_, ?_⟩
    · obtain ⟨d, ds, hfirst, hd⟩ := exists_key (h.keys entry (by simp))
      simpa [line, hfirst] using hd
    · rw [List.mem_cons, not_or] at htail
      simp [line, hkey, hreturn, htail]
    · simp only [line, List.length_append, List.length_cons] at hlength ⊢
      omega

theorem readLines_entries (fuel : Nat) {draft : Table → Draft} (hgrows : Grows draft)
    {entries : List (String × Scalar)} (h : AreWritten entries) (read : Table) {text : List Char}
    (rest : List Char) (hnodup : (read.map (·.1) ++ entries.map (·.1)).Nodup)
    (htext : entryLines? entries = some text) :
    readLines (fuel + entries.length) (draft read) (text ++ rest) =
      readLines fuel (draft (read ++ tableOf entries)) rest := by
  induction entries generalizing read text with
  | nil =>
    cases htext
    simp [tableOf]
  | cons entry entries ih =>
    obtain ⟨lines, hlines, -⟩ := exists_entryLines h.tail
    have hkeeps := h.kept entry (by simp)
    obtain ⟨c, tail, hscalar, -⟩ := exists_scalarText (h.scalars entry (by simp)) hkeeps
    cases (entryLines?_cons entry.1 hkeeps hscalar hlines).symm.trans htext
    have hnew : entry.1 ∉ read.map (·.1) := by
      simp only [List.map_cons, List.nodup_append, List.mem_cons] at hnodup
      exact fun hmem => hnodup.2.2 _ hmem _ (.inl rfl) rfl
    rw [line_append, List.length_cons, ← Nat.add_assoc,
      readLines_line _ _ (h.keys entry (by simp)) (h.scalars entry (by simp)) hkeeps hscalar
        (hgrows read entry.1 (.scalar entry.2) hnew),
      ih h.tail _ (by simpa using hnodup) hlines, List.append_assoc]
    rfl

theorem readLines_header (fuel : Nat) {draft next : Draft} {name : String} (rest : List Char)
    (hname : IsKey name) (hnext : draft.openTable [name] = some next) :
    readLines (fuel + 1) draft ('\n' :: '[' :: (name.toList ++ ']' :: '\n' :: rest)) =
      readLines fuel next rest := by
  have hpath (fuel : Nat) := keyPath?_key fuel hname [] (c := ']') ('\n' :: rest)
    (by simp) (by decide)
  obtain ⟨c, cs, hcons, hc⟩ := exists_key hname
  have hgap : skipGap false ('\n' :: '[' :: (name.toList ++ ']' :: '\n' :: rest)) =
      '[' :: (name.toList ++ ']' :: '\n' :: rest) := rfl
  rw [List.nil_append] at hpath
  rw [hcons, List.cons_append] at hpath hgap ⊢
  have hbracket : c ≠ '[' := (key_char hc).2.2.1
  simp only [readLines, hgap]
  split
  case h_1 heq => cases heq
  case h_2 heq => exact absurd (List.cons.inj (List.cons.inj heq).2).1 hbracket
  case h_3 heq =>
    obtain rfl := (List.cons.inj heq).2
    simp only [List.length_cons, hpath, hnext]
    rfl
  case h_4 _ heq => exact (heq _ rfl).elim

theorem plainLines_eq_self {cs : List Char} (h : '\r' ∉ cs) : plainLines cs = cs := by
  fun_induction plainLines cs with
  | case1 => simp at h
  | case2 c rest _ ih => rw [ih fun hmem => h (by simp [hmem])]
  | case3 => rfl

theorem areWritten_kept {document : Document} (h : IsPlain document)
    (entries : List (String × Scalar))
    (hentries : ∀ entry ∈ entries, entry ∈ document.entries ++ document.members) :
    AreWritten (entries.filter (keeps .toml ·.2)) where
  keys := fun e he => h.keys e (hentries e (List.mem_filter.mp he).1)
  scalars := fun e he => h.scalars e (hentries e (List.mem_filter.mp he).1)
  kept := fun _ he => (List.mem_filter.mp he).2

/-- A text of entries, then a header, then the entries of the section. -/
theorem readLines_document (fuel : Nat) {name : String} {top inner : List (String × Scalar)}
    {lines members : List Char} (hname : IsKey name) (htop : AreWritten top)
    (hinner : AreWritten inner) (hdistinct : (top.map (·.1) ++ [name]).Nodup)
    (hdistinctInner : (inner.map (·.1)).Nodup) (hlines : entryLines? top = some lines)
    (hmembers : entryLines? inner = some members) :
    readLines (fuel + 1 + inner.length + 1 + top.length) ⟨[], []⟩
        (lines ++ '\n' :: '[' :: (name.toList ++ ']' :: '\n' :: members)) =
      some ⟨leaves (tableOf top) ++ [(name, .table .header (leaves (tableOf inner)))], [name]⟩ := by
  have hkeys (entries : List (String × Scalar)) :
      (tableOf entries).map (·.1) = entries.map (·.1) := by
    simp [tableOf]
  have hnew : name ∉ (tableOf top).map (·.1) := by
    rw [hkeys]
    simp only [List.nodup_append, List.mem_singleton] at hdistinct
    exact fun hmem => hdistinct.2.2 name hmem name rfl rfl
  have hentries := readLines_entries (fuel + 1 + inner.length + 1) grows_top htop []
    ('\n' :: '[' :: (name.toList ++ ']' :: '\n' :: members))
    (by simpa using (List.nodup_append.mp hdistinct).1) hlines
  have hnewLeaf : name ∉ (leaves (tableOf top)).map (·.1) := by rwa [keys_leaves]
  have hsection := readLines_entries (fuel + 1) (grows_section hnewLeaf) hinner [] []
    (by simpa using hdistinctInner) hmembers
  rw [List.append_nil] at hsection
  exact hentries.trans ((readLines_header _ members hname (openTable_top hnew)).trans hsection)

theorem read_write {document : Document} (h : IsPlain document) :
    ∃ text, write? document = some text ∧ Toml.read text = some (kept .toml document).toValue := by
  have htop := areWritten_kept h document.entries fun _ => List.mem_append_left _
  have hinner := areWritten_kept h document.members fun _ => List.mem_append_right _
  obtain ⟨lines, hlines, hlinesHead, hlinesReturn, hlinesLength⟩ := exists_entryLines htop
  obtain ⟨members, hmembers, -, hmembersReturn, hmembersLength⟩ := exists_entryLines hinner
  have hsub {entries : List (String × Scalar)} (more : List String)
      (hnodup : (entries.map (·.1) ++ more).Nodup) :
      ((entries.filter (keeps .toml ·.2)).map (·.1) ++ more).Nodup :=
    hnodup.sublist ((List.filter_sublist.map _).append_right more)
  have hdocument (fuel : Nat) := readLines_document fuel h.name htop hinner (hsub _ h.distinct)
    (by simpa using hsub [] (by simpa using h.distinctMembers)) hlines hmembers
  set text := lines ++ '\n' :: '[' :: (document.name.toList ++ ']' :: '\n' :: members) with htext
  have hreturn : '\r' ∉ text := by
    have hname : '\r' ∉ document.name.toList := fun hmem =>
      absurd (h.name.letters _ hmem) (by decide)
    simp [htext, hlinesReturn, hmembersReturn, hname]
  have hmark : ∀ rest, text ≠ '\uFEFF' :: rest := by
    intro rest heq
    cases lines with
    | nil => simp [htext] at heq
    | cons c lines =>
      obtain rfl : c = '\uFEFF' := by
        rw [htext, List.cons_append] at heq
        exact (List.cons.inj heq).1
      exact absurd (hlinesHead _ rfl) (by decide)
  refine ⟨String.ofList text, ?_, ?_⟩
  · rw [entryLines?_filter] at hlines hmembers
    simp only [write?, hlines, hmembers, htext]
  · obtain ⟨fuel, hfuel⟩ : ∃ fuel, text.length + 1 =
        fuel + 1 + (document.members.filter (keeps .toml ·.2)).length + 1 +
          (document.entries.filter (keeps .toml ·.2)).length := by
      refine ⟨text.length - 1 - (document.members.filter (keeps .toml ·.2)).length -
        (document.entries.filter (keeps .toml ·.2)).length, ?_⟩
      simp only [htext, List.length_append, List.length_cons]
      omega
    have hread := hdocument fuel
    rw [← hfuel] at hread
    simp only [Toml.read, String.toList_ofList, plainLines_eq_self hreturn]
    rw [hread, Option.map_some, Draft.toValue, entriesValue_append, entriesValue_leaves]
    simp [Node.entriesValue, Node.entryValue, Node.toValue, entriesValue_leaves, kept,
      Document.toValue, tableOf]

end PocketCalculator.Proofs.TomlDocuments
